import ContractVM.Heap.Basic
import ContractVM.Text.Quoted

/-! # Values as text

    Scalars are shown in the notation of their literals.  The entries of a struct
    stand in braces, in order; below `displayLevels` levels a struct is elided. -/

namespace ContractVM

/-- The levels of structs that are shown. -/
def displayLevels : Nat := 16

namespace Heap

variable {Ω : Type} [HostData Ω]

/-- The text of a value, showing `levels` levels of structs; `showKey` gives the
    text of keys. -/
def showWithin (h : Heap Ω) (showKey : Value → String) : Nat → Value → String
  | levels, v =>
    match v with
    | .none => "none"
    | .bool b => toString b
    | .number n => toString n
    | .string s => Text.quoted s
    | .bytes bs => "0x" ++ Text.hexBytes bs.toList
    | .timestamp t => "ts:" ++ toString t.toNat
    | .enum e => "enum:" ++ toString e.toNat
    | .object r =>
      match h.object? r with
      | some x => "<" ++ x.typeName ++ ">"
      | none => "<>"
    | .struct r =>
      match levels with
      | 0 => "\x7b...\x7d"
      | below + 1 =>
        let entries := (h.entries r).map fun entry =>
          showKey entry.1 ++ ": " ++ showWithin h showKey below entry.2
        "\x7b" ++ String.intercalate ", " entries ++ "\x7d"

/-- The text of a key.  Each key is shown from the top level again; only structs
    with structs for keys nest keys, at most `depth` of them. -/
def showKeyWithin (h : Heap Ω) : Nat → Value → String
  | 0, _ => ""
  | depth + 1, v => h.showWithin (h.showKeyWithin depth) displayLevels v

/-- The text of a value. -/
def display (h : Heap Ω) (v : Value) : String :=
  h.showWithin (h.showKeyWithin (h.structs.size + 1)) displayLevels v

end Heap

end ContractVM
