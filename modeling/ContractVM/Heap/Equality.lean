import ContractVM.Heap.Basic

/-! # Equality

    Scalars are equal if they have the same type and the same content.  Structs
    are compared entry by entry, whatever the order of the entries, down to
    `maxNesting` levels; a deeper comparison has no answer.  Pairs of structs that
    were found equal are kept, so that shared parts are compared once. -/

namespace ContractVM

/-- Pairs of structs that were found equal. -/
abbrev ProvenPairs := List (StructRef × StructRef)

/-- The outcome of a comparison. -/
inductive Comparison where
  | equal (proven : ProvenPairs)
  | different
  /-- The structs are nested too deep to be compared. -/
  | tooDeep
  deriving DecidableEq, Repr

/-- Did the comparison find its sides equal? -/
def Comparison.isEqual : Comparison → Bool
  | .equal _ => true
  | _ => false

/-- Compares entries with those of another struct: the value of each key is
    compared with the other value of that key. -/
def Entries.compare (sameKey : Value → Value → Bool)
    (compareValues : ProvenPairs → Value → Value → Comparison) (other : Entries) :
    Entries → ProvenPairs → Comparison
  | [], proven => .equal proven
  | (k, v) :: rest, proven =>
    match Entries.get? sameKey k other with
    | none => .different
    | some w =>
      match compareValues proven v w with
      | .equal proven => Entries.compare sameKey compareValues other rest proven
      | .different => .different
      | .tooDeep => .tooDeep

namespace Heap

variable {Ω : Type} [HostData Ω]

/-- Are these references to equal objects? -/
def sameObject (h : Heap Ω) (a b : ObjectRef) : Bool :=
  a == b || match h.object? a, h.object? b with
    | some x, some y => x.same y
    | _, _ => false

/-- Compares two values, going down `levels` levels of structs. -/
def compareWithin (h : Heap Ω) (sameKey : Value → Value → Bool) :
    Nat → ProvenPairs → Value → Value → Comparison
  | levels, proven, v, w =>
    match v, w with
    | .struct a, .struct b =>
      if a = b then .equal proven
      else match levels with
        | 0 => .tooDeep
        | below + 1 =>
          if (a, b) ∈ proven then .equal proven
          else if (h.entries a).length ≠ (h.entries b).length then .different
          else
            match Entries.compare sameKey (compareWithin h sameKey below) (h.entries b)
                (h.entries a) proven with
            | .equal proven => .equal ((a, b) :: proven)
            | .different => .different
            | .tooDeep => .tooDeep
    | .object a, .object b => if h.sameObject a b then .equal proven else .different
    | v, w => if v = w then .equal proven else .different

/-- Are these keys the same?  Keys are compared like other values.  Only structs
    with structs for keys nest such comparisons, at most `depth` of them. -/
def sameKeyWithin (h : Heap Ω) : Nat → Value → Value → Bool
  | 0, a, b => a == b
  | depth + 1, a, b => (h.compareWithin (h.sameKeyWithin depth) maxNesting [] a b).isEqual

/-- Are these keys the same?  A comparison of keys that met more pairs of structs
    than there are would come back to one of them. -/
def sameKey (h : Heap Ω) (a b : Value) : Bool :=
  h.sameKeyWithin (h.structs.size * h.structs.size + 2) a b

/-- Equality of values, or the fault of structs that are nested too deep. -/
def equal (h : Heap Ω) (a b : Value) (instruction : String) : Except Fault Bool :=
  match h.compareWithin h.sameKey maxNesting [] a b with
  | .equal _ => .ok true
  | .different => .ok false
  | .tooDeep => .error (.outOfRange instruction .nesting)

/-- Equality of values, where structs that are nested too deep count as unequal. -/
def equals (h : Heap Ω) (a b : Value) : Bool :=
  (h.compareWithin h.sameKey maxNesting [] a b).isEqual

end Heap

end ContractVM
