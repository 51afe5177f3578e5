import ContractVM.Heap.Basic

/-! # Deep copies

    A deep copy duplicates the structs and objects behind a value.  A struct that
    is met again is not copied again, so structs are shared inside the copy as they
    are behind the value.  Chains of more than `maxNesting` structs are refused. -/

namespace ContractVM

/-- The structs copied so far, each with its copy. -/
abbrev Copies := List (StructRef × StructRef)

/-- What a finished copy yields: the result, the copies made and the grown heap. -/
structure Copied (Ω α : Type) where
  result : α
  copies : Copies
  heap : Heap Ω

namespace Heap

variable {Ω : Type}

/-- Copies the values of entries, from the first on; the keys are kept. -/
def copyEntries (copyValue : Value → Copies → Heap Ω → Option (Copied Ω Value)) :
    Entries → Copies → Heap Ω → Option (Copied Ω Entries)
  | [], copies, h => some ⟨[], copies, h⟩
  | (k, v) :: rest, copies, h => do
    let c ← copyValue v copies h
    let cs ← copyEntries copyValue rest c.copies c.heap
    return ⟨(k, c.result) :: cs.result, cs.copies, cs.heap⟩

variable [HostData Ω]

/-- Copies a value, going down `levels` levels of structs. -/
def copyWithin : Nat → Value → Copies → Heap Ω → Option (Copied Ω Value)
  | levels, v, copies, h =>
    match v with
    | .struct r =>
      match levels with
      | 0 => none
      | below + 1 =>
        match copies.lookup r with
        | some done => some ⟨.struct done, copies, h⟩
        | none => do
          let cs ← copyEntries (copyWithin below) (h.entries r) copies h
          let (copy, heap) := cs.heap.addStruct cs.result
          return ⟨.struct copy, (r, copy) :: cs.copies, heap⟩
    | .object r =>
      match h.object? r with
      | some x =>
        let (copy, heap) := h.addObject x.duplicate
        some ⟨.object copy, copies, heap⟩
      | none => some ⟨.object r, copies, h⟩
    | v => some ⟨v, copies, h⟩

/-- An independent copy of a value, and the heap that holds it. -/
def deepCopy (h : Heap Ω) (v : Value) (instruction : String) : Except Fault (Value × Heap Ω) :=
  match copyWithin maxNesting v [] h with
  | some c => .ok (c.result, c.heap)
  | none => .error (.outOfRange instruction .nesting)

end Heap

end ContractVM
