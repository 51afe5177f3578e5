import ContractVM.Value.Basic

/-! # Texts and bytes as sequences

    Texts and rows of bytes are joined and cut alike.  Positions count bytes, and
    a text is cut only between its characters. -/

namespace ContractVM

/-- The part of a text between two byte positions, if both lie between characters. -/
def sliceText? (s : String) (first last : Nat) : Option String :=
  if (⟨first⟩ : String.Pos.Raw).isValid s && (⟨last⟩ : String.Pos.Raw).isValid s then
    String.fromUTF8? ⟨s.toUTF8.data.extract first last⟩
  else none

namespace Value

/-- The number of bytes. -/
def size (v : Value) (instruction : String) : Except Fault Nat :=
  match v with
  | .string s => .ok s.utf8ByteSize
  | .bytes bs => .ok bs.size
  | _ => .error (v.mismatch instruction .textOrBytes)

/-- One sequence followed by another.  A single none counts as empty, and the
    result is a text only if both parts are. -/
def cat (a b : Value) (instruction : String) : Except Fault Value :=
  match a, b with
  | .none, .string s | .string s, .none => .ok (.string s)
  | .none, .bytes bs | .bytes bs, .none => .ok (.bytes bs)
  | .string s, .string t => .ok (.string (s ++ t))
  | .string s, .bytes cs => .ok (.bytes (s.toUTF8.data ++ cs))
  | .bytes bs, .string t => .ok (.bytes (bs ++ t.toUTF8.data))
  | .bytes bs, .bytes cs => .ok (.bytes (bs ++ cs))
  | .none, bad | .string _, bad | .bytes _, bad => .error (bad.mismatch instruction .textOrBytes)
  | bad, _ => .error (bad.mismatch instruction .textOrBytes)

/-- The `length` bytes from `index` on. -/
def range (v : Value) (index length : Nat) (instruction : String) : Except Fault Value :=
  let last := index + length
  if UInt64.size ≤ last then .error (.outOfRange instruction .endOverflow)
  else do
    let size ← v.size instruction
    if size < last then
      .error (.outOfRange instruction (.beyondSize index last size))
    else match v with
      | .string s =>
        match sliceText? s index last with
        | .some part => .ok (.string part)
        | .none => .error (.outOfRange instruction (.splitsCharacter index last))
      | .bytes bs => .ok (.bytes (bs.extract index last))
      | _ => .error (v.mismatch instruction .textOrBytes)

/-- The first `length` bytes. -/
def left (v : Value) (length : Nat) (instruction : String) : Except Fault Value :=
  v.range 0 length instruction

/-- The last `length` bytes. -/
def right (v : Value) (length : Nat) (instruction : String) : Except Fault Value := do
  let size ← v.size instruction
  if size < length then .error (.outOfRange instruction (.longerThan length size))
  else v.range (size - length) length instruction

end Value

end ContractVM
