import ContractVM.Heap.Basic

/-! # Nesting

    Before a value becomes part of a struct, the structs behind it are searched
    for that struct, which would close a cycle, and for chains that the limit on
    nesting does not allow. -/

namespace ContractVM

/-- For structs already searched, the levels that were left when they were. -/
abbrev Searched := List (StructRef × Nat)

/-- The outcome of a search. -/
inductive Nesting where
  /-- The struct was not found, and no chain is too long. -/
  | clear (searched : Searched)
  | cyclic
  | tooDeep
  deriving DecidableEq, Repr

namespace Heap

variable {Ω : Type}

/-- Searches the structs among values, from the first on. -/
def searchValues (searchStruct : StructRef → Searched → Nesting) : List Value → Searched → Nesting
  | [], searched => .clear searched
  | .struct r :: rest, searched =>
    match searchStruct r searched with
    | .clear searched => searchValues searchStruct rest searched
    | .cyclic => .cyclic
    | .tooDeep => .tooDeep
  | _ :: rest, searched => searchValues searchStruct rest searched

/-- Searches a struct and those behind it for `target`, going down `levels` levels
    of structs below it.  The last entry comes first.  A struct that was searched
    with no more levels left is not searched again. -/
def searchWithin (h : Heap Ω) (target : StructRef) : Nat → StructRef → Searched → Nesting
  | levels, r, searched =>
    if r = target then .cyclic
    else match levels with
      | 0 => .tooDeep
      | below + 1 =>
        if searched.any fun seen => seen.1 == r && decide (seen.2 ≤ below + 1) then
          .clear searched
        else
          searchValues (searchWithin h target below) ((h.entries r).reverse.map Prod.snd)
            ((r, below + 1) :: searched)

/-- Searches a value that is to become part of the struct `target`. -/
def nesting (h : Heap Ω) (target : StructRef) (v : Value) : Nesting :=
  searchValues (h.searchWithin target (maxNesting - 1)) [v] []

end Heap

end ContractVM
