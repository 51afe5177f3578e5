import ContractVM.Heap.Copy
import ContractVM.Heap.Equality

/-! # Walks through structs

    Copies and comparisons go from a struct to the values in it, and count how deep they are.
    A walk is given here as the tree of its calls.  Trees are finite, but nothing else bounds
    them, so that a walk which has a tree is one that ends:

    * **Copies** end for every value, and with one outcome only.
    * **Comparisons** do so for every two values.

    The structs may hold one another in any way: no call goes deeper than `maxNesting`, and each
    row of entries is finite. -/

namespace ContractVM

variable {Ω : Type}

/-! ## Section 1: Outcomes -/

/-- The copy of a struct, made of the copy of its row. -/
def Copied.ofRow (r : StructRef) (cs : Copied Ω Entries) : Copied Ω Value :=
  let (copy, heap) := cs.heap.addStruct cs.result
  ⟨.struct copy, (r, copy) :: cs.copies, heap⟩

/-- The copy of a row, made of the copies of its first value and of the others. -/
def Copied.ofFirst (key : Value) (c : Copied Ω Value) (cs : Copied Ω Entries) :
    Copied Ω Entries :=
  ⟨(key, c.result) :: cs.result, cs.copies, cs.heap⟩

/-- The outcome of a comparison of structs, made of the outcome for their rows: a pair that is
    equal is kept in mind. -/
def Comparison.keep (pair : StructRef × StructRef) : Comparison → Comparison
  | .equal proven => .equal (pair :: proven)
  | found => found

/-- The answer to a request for a copy, by the outcome of copying. -/
def Copied.answer (instruction : String) :
    Option (Copied Ω Value) → Except Fault (Value × Heap Ω)
  | some c => .ok (c.result, c.heap)
  | none => .error (.outOfRange instruction .nesting)

/-- The answer to the question whether values are equal, by the outcome of comparing. -/
def Comparison.answer (instruction : String) : Comparison → Except Fault Bool
  | .equal _ => .ok true
  | .different => .ok false
  | .tooDeep => .error (.outOfRange instruction .nesting)

namespace Heap

variable [HostData Ω]

/-! ## Section 2: Copies -/

mutual

/-- Copying a value at a depth ends with an outcome; there is none where structs are nested too
    deep. -/
inductive CopyEnds : Nat → Value → Copies → Heap Ω → Option (Copied Ω Value) → Prop where
  | data {depth : Nat} {v : Value} {copies : Copies} {h : Heap Ω}
    (hstruct : ∀ r, v ≠ .struct r) (hobject : ∀ o, v ≠ .object o) :
    CopyEnds depth v copies h (some ⟨v, copies, h⟩)
  | object {depth : Nat} {o : ObjectRef} {x : HostObject Ω} {copies : Copies} {h : Heap Ω}
    (hx : h.object? o = some x) :
    CopyEnds depth (.object o) copies h
      (some ⟨.object (h.addObject x.duplicate).1, copies, (h.addObject x.duplicate).2⟩)
  | noObject {depth : Nat} {o : ObjectRef} {copies : Copies} {h : Heap Ω}
    (hx : h.object? o = none) :
    CopyEnds depth (.object o) copies h (some ⟨.object o, copies, h⟩)
  | tooDeep {depth : Nat} {r : StructRef} {copies : Copies} {h : Heap Ω}
    (hdepth : maxNesting < depth) : CopyEnds depth (.struct r) copies h none
  /-- The struct was copied before. -/
  | known {depth : Nat} {r done : StructRef} {copies : Copies} {h : Heap Ω}
    (hdepth : depth ≤ maxNesting) (hknown : copies.lookup r = some done) :
    CopyEnds depth (.struct r) copies h (some ⟨.struct done, copies, h⟩)
  /-- The values in the struct are copied one level deeper. -/
  | struct {depth : Nat} {r : StructRef} {copies : Copies} {h : Heap Ω}
    {outcome : Option (Copied Ω Entries)} (hdepth : depth ≤ maxNesting)
    (hnew : copies.lookup r = none)
    (hrow : CopyRowEnds (depth + 1) (h.entries r) copies h outcome) :
    CopyEnds depth (.struct r) copies h (outcome.map (Copied.ofRow r))

/-- Copying the values of a row at a depth ends with an outcome. -/
inductive CopyRowEnds : Nat → Entries → Copies → Heap Ω → Option (Copied Ω Entries) → Prop where
  | nil {depth : Nat} {copies : Copies} {h : Heap Ω} :
    CopyRowEnds depth [] copies h (some ⟨[], copies, h⟩)
  | refused {depth : Nat} {key v : Value} {rest : Entries} {copies : Copies} {h : Heap Ω}
    (hfirst : CopyEnds depth v copies h none) : CopyRowEnds depth ((key, v) :: rest) copies h none
  | cons {depth : Nat} {key v : Value} {rest : Entries} {copies : Copies} {h : Heap Ω}
    {c : Copied Ω Value} {outcome : Option (Copied Ω Entries)}
    (hfirst : CopyEnds depth v copies h (some c))
    (hrest : CopyRowEnds depth rest c.copies c.heap outcome) :
    CopyRowEnds depth ((key, v) :: rest) copies h (outcome.map (Copied.ofFirst key c))

end

/-- The copy of a struct that was not copied before is made of the copy of its row. -/
theorem copyWithin_of_new {below : Nat} {r : StructRef} {copies : Copies} {h : Heap Ω}
    (hnew : copies.lookup r = none) :
    copyWithin (below + 1) (.struct r) copies h =
      (copyEntries (copyWithin below) (h.entries r) copies h).map (Copied.ofRow r) := by
  unfold copyWithin
  simp only [hnew]
  cases copyEntries (copyWithin below) (h.entries r) copies h with
  | none => rfl
  | some cs => rfl

omit [HostData Ω] in
/-- The copy of a row is made of the copies of its first value and of the others. -/
theorem copyEntries_cons {copyValue : Value → Copies → Heap Ω → Option (Copied Ω Value)}
    {key v : Value} {rest : Entries} {copies : Copies} {h : Heap Ω} {c : Copied Ω Value}
    (hc : copyValue v copies h = some c) :
    copyEntries copyValue ((key, v) :: rest) copies h =
      (copyEntries copyValue rest c.copies c.heap).map (Copied.ofFirst key c) := by
  simp only [copyEntries, hc, bind, Option.bind_some]
  cases copyEntries copyValue rest c.copies c.heap with
  | none => rfl
  | some cs => rfl

/-- A row ends if its values do. -/
theorem copyRowEnds_copyEntries {depth : Nat}
    {copyValue : Value → Copies → Heap Ω → Option (Copied Ω Value)}
    (hvalues : ∀ v copies h, CopyEnds depth v copies h (copyValue v copies h)) (es : Entries)
    (copies : Copies) (h : Heap Ω) :
    CopyRowEnds depth es copies h (copyEntries copyValue es copies h) := by
  induction es generalizing copies h with
  | nil => exact .nil
  | cons e rest ih =>
    obtain ⟨key, v⟩ := e
    have hfirst := hvalues v copies h
    cases hc : copyValue v copies h with
    | none =>
      rw [hc] at hfirst
      have hrefused : CopyRowEnds depth ((key, v) :: rest) copies h none := .refused hfirst
      simpa [copyEntries, hc] using hrefused
    | some c =>
      rw [hc] at hfirst
      rw [copyEntries_cons hc]
      exact .cons hfirst (ih c.copies c.heap)

/-- Values that are no structs are copied alike at any depth. -/
theorem copyEnds_of_leaf (depth levels : Nat) {v : Value} (hv : ∀ r, v ≠ .struct r)
    (copies : Copies) (h : Heap Ω) : CopyEnds depth v copies h (copyWithin levels v copies h) := by
  unfold copyWithin
  split
  · next r => exact absurd rfl (hv r)
  · next o =>
    cases hx : h.object? o with
    | some x => exact .object hx
    | none => exact .noObject hx
  · next hobject => exact .data hv hobject

/-- Copying ends, for the levels that are left get fewer in every call. -/
theorem copyEnds_copyWithin (levels : Nat) {depth : Nat} (hdepth : depth + levels = maxNesting + 1)
    (v : Value) (copies : Copies) (h : Heap Ω) :
    CopyEnds depth v copies h (copyWithin levels v copies h) := by
  induction levels generalizing depth v copies h with
  | zero =>
    by_cases hv : ∃ r, v = .struct r
    · obtain ⟨r, rfl⟩ := hv
      exact .tooDeep (by omega)
    · exact copyEnds_of_leaf depth 0 (fun r hr => hv ⟨r, hr⟩) copies h
  | succ below ih =>
    by_cases hv : ∃ r, v = .struct r
    · obtain ⟨r, rfl⟩ := hv
      have hle : depth ≤ maxNesting := by omega
      cases hlookup : copies.lookup r with
      | some done => simpa [copyWithin, hlookup] using CopyEnds.known hle hlookup
      | none =>
        rw [copyWithin_of_new hlookup]
        have hvalues := @ih (depth + 1) (by omega)
        exact .struct hle hlookup (copyRowEnds_copyEntries hvalues (h.entries r) copies h)
    · exact copyEnds_of_leaf depth (below + 1) (fun r hr => hv ⟨r, hr⟩) copies h

mutual

/-- There is no other outcome. -/
theorem CopyEnds.eq_copyWithin {depth levels : Nat} {v : Value} {copies : Copies} {h : Heap Ω}
    {o : Option (Copied Ω Value)} (hdepth : depth + levels = maxNesting + 1) :
    CopyEnds depth v copies h o → copyWithin levels v copies h = o
  | .data hstruct hobject => by
    unfold copyWithin
    split
    · exact absurd rfl (hstruct _)
    · exact absurd rfl (hobject _)
    · rfl
  | .object hx => by
    unfold copyWithin
    simp only [hx]
  | .noObject hx => by
    unfold copyWithin
    simp only [hx]
  | .tooDeep hover => by
    obtain rfl : levels = 0 := by omega
    rfl
  | .known hle hknown => by
    obtain ⟨below, rfl⟩ : ∃ n, levels = n + 1 := ⟨levels - 1, by omega⟩
    unfold copyWithin
    simp only [hknown]
  | .struct hle hnew hrow => by
    obtain ⟨below, rfl⟩ : ∃ n, levels = n + 1 := ⟨levels - 1, by omega⟩
    rw [copyWithin_of_new hnew, hrow.eq_copyEntries (by omega)]

theorem CopyRowEnds.eq_copyEntries {depth levels : Nat} {es : Entries} {copies : Copies}
    {h : Heap Ω} {o : Option (Copied Ω Entries)} (hdepth : depth + levels = maxNesting + 1) :
    CopyRowEnds depth es copies h o → copyEntries (copyWithin levels) es copies h = o
  | .nil => rfl
  | .refused hfirst => by
    have hc := hfirst.eq_copyWithin hdepth
    simp only [copyEntries, hc, bind, Option.bind_none]
  | .cons hfirst hrest => by
    have hc := hfirst.eq_copyWithin hdepth
    rw [copyEntries_cons hc, hrest.eq_copyEntries hdepth]

end

/-- Every value is copied by one walk, and the answer is what it ends with. -/
theorem exists_copyEnds (h : Heap Ω) (v : Value) (instruction : String) :
    ∃ outcome, (∀ o, CopyEnds 1 v [] h o ↔ o = outcome) ∧
      h.deepCopy v instruction = Copied.answer instruction outcome := by
  have hdepth : 1 + maxNesting = maxNesting + 1 := Nat.add_comm 1 maxNesting
  refine ⟨copyWithin maxNesting v [] h, fun o => ⟨fun hends => ?_, ?_⟩, ?_⟩
  · exact (hends.eq_copyWithin hdepth).symm
  · rintro rfl
    exact copyEnds_copyWithin maxNesting hdepth v [] h
  · unfold deepCopy
    cases copyWithin maxNesting v [] h with
    | none => rfl
    | some c => rfl

/-! ## Section 3: Comparisons -/

mutual

/-- Comparing values at a depth ends with an outcome. -/
inductive CompareEnds (h : Heap Ω) : Nat → ProvenPairs → Value → Value → Comparison → Prop where
  | data {depth : Nat} {proven : ProvenPairs} {v w : Value}
    (hstructs : ∀ a b, v = .struct a → w ≠ .struct b)
    (hobjects : ∀ a b, v = .object a → w ≠ .object b) :
    CompareEnds h depth proven v w (if v = w then .equal proven else .different)
  | objects {depth : Nat} {proven : ProvenPairs} {a b : ObjectRef} :
    CompareEnds h depth proven (.object a) (.object b)
      (if h.sameObject a b then .equal proven else .different)
  | same {depth : Nat} {proven : ProvenPairs} {r : StructRef} :
    CompareEnds h depth proven (.struct r) (.struct r) (.equal proven)
  | tooDeep {depth : Nat} {proven : ProvenPairs} {a b : StructRef} (hne : a ≠ b)
    (hdepth : maxNesting < depth) : CompareEnds h depth proven (.struct a) (.struct b) .tooDeep
  /-- The structs were found equal before. -/
  | known {depth : Nat} {proven : ProvenPairs} {a b : StructRef} (hne : a ≠ b)
    (hdepth : depth ≤ maxNesting) (hmem : (a, b) ∈ proven) :
    CompareEnds h depth proven (.struct a) (.struct b) (.equal proven)
  | lengths {depth : Nat} {proven : ProvenPairs} {a b : StructRef} (hne : a ≠ b)
    (hdepth : depth ≤ maxNesting) (hnew : (a, b) ∉ proven)
    (hlength : (h.entries a).length ≠ (h.entries b).length) :
    CompareEnds h depth proven (.struct a) (.struct b) .different
  /-- The values in the structs are compared one level deeper. -/
  | structs {depth : Nat} {proven : ProvenPairs} {a b : StructRef} {found : Comparison}
    (hne : a ≠ b) (hdepth : depth ≤ maxNesting) (hnew : (a, b) ∉ proven)
    (hlength : (h.entries a).length = (h.entries b).length)
    (hrow : CompareRowEnds h (depth + 1) (h.entries b) (h.entries a) proven found) :
    CompareEnds h depth proven (.struct a) (.struct b) (found.keep (a, b))

/-- Comparing the values of a row with those of another one ends with an outcome. -/
inductive CompareRowEnds (h : Heap Ω) :
    Nat → Entries → Entries → ProvenPairs → Comparison → Prop where
  | nil {depth : Nat} {other : Entries} {proven : ProvenPairs} :
    CompareRowEnds h depth other [] proven (.equal proven)
  | missing {depth : Nat} {other rest : Entries} {proven : ProvenPairs} {key v : Value}
    (hget : Entries.get? h.sameKey key other = none) :
    CompareRowEnds h depth other ((key, v) :: rest) proven .different
  | unequal {depth : Nat} {other rest : Entries} {proven : ProvenPairs} {key v w : Value}
    {found : Comparison} (hget : Entries.get? h.sameKey key other = some w)
    (hfirst : CompareEnds h depth proven v w found) (hne : ∀ proven', found ≠ .equal proven') :
    CompareRowEnds h depth other ((key, v) :: rest) proven found
  | cons {depth : Nat} {other rest : Entries} {proven proven' : ProvenPairs} {key v w : Value}
    {found : Comparison} (hget : Entries.get? h.sameKey key other = some w)
    (hfirst : CompareEnds h depth proven v w (.equal proven'))
    (hrest : CompareRowEnds h depth other rest proven' found) :
    CompareRowEnds h depth other ((key, v) :: rest) proven found

end

section Comparisons

variable {h : Heap Ω} {depth levels : Nat} {proven : ProvenPairs}

/-- Structs that are not known to be equal are compared by their rows. -/
theorem compareWithin_of_new {below : Nat} {a b : StructRef} (hne : a ≠ b) (hnew : (a, b) ∉ proven)
    (hlength : (h.entries a).length = (h.entries b).length) :
    h.compareWithin h.sameKey (below + 1) proven (.struct a) (.struct b) =
      (Entries.compare h.sameKey (h.compareWithin h.sameKey below) (h.entries b) (h.entries a)
        proven).keep (a, b) := by
  rw [compareWithin, if_neg hne, if_neg hnew, if_neg (not_not_intro hlength)]
  cases Entries.compare h.sameKey (h.compareWithin h.sameKey below) (h.entries b) (h.entries a)
    proven with
  | equal proven' => rfl
  | different => rfl
  | tooDeep => rfl

/-- A row ends if the comparisons of its values do. -/
theorem compareRowEnds_compare {compareValues : ProvenPairs → Value → Value → Comparison}
    (hvalues : ∀ proven v w, h.CompareEnds depth proven v w (compareValues proven v w))
    (other es : Entries) (proven : ProvenPairs) :
    h.CompareRowEnds depth other es proven
      (Entries.compare h.sameKey compareValues other es proven) := by
  induction es generalizing proven with
  | nil => exact .nil
  | cons e rest ih =>
    obtain ⟨key, v⟩ := e
    unfold Entries.compare
    cases hget : Entries.get? h.sameKey key other with
    | none => exact .missing hget
    | some w =>
      have hfirst := hvalues proven v w
      dsimp only
      cases hfound : compareValues proven v w with
      | equal proven' =>
        rw [hfound] at hfirst
        exact .cons hget hfirst (ih proven')
      | different =>
        rw [hfound] at hfirst
        exact .unequal hget hfirst (by simp)
      | tooDeep =>
        rw [hfound] at hfirst
        exact .unequal hget hfirst (by simp)

/-- Comparing ends, for the levels that are left get fewer in every call. -/
theorem compareEnds_compareWithin (hdepth : depth + levels = maxNesting + 1) (proven : ProvenPairs)
    (v w : Value) :
    h.CompareEnds depth proven v w (h.compareWithin h.sameKey levels proven v w) := by
  induction levels generalizing depth proven v w with
  | zero =>
    unfold compareWithin
    split
    · next a b =>
      by_cases heq : a = b
      · subst heq
        simpa using CompareEnds.same
      · simpa [heq] using CompareEnds.tooDeep heq (by omega)
    · exact .objects
    · next hstructs hobjects => exact .data hstructs hobjects
  | succ below ih =>
    by_cases hboth : ∃ a b, v = .struct a ∧ w = .struct b
    · obtain ⟨a, b, rfl, rfl⟩ := hboth
      have hle : depth ≤ maxNesting := by omega
      by_cases heq : a = b
      · subst heq
        simpa [compareWithin] using CompareEnds.same
      · by_cases hmem : (a, b) ∈ proven
        · simpa [compareWithin, heq, hmem] using CompareEnds.known heq hle hmem
        · by_cases hlength : (h.entries a).length = (h.entries b).length
          · rw [compareWithin_of_new heq hmem hlength]
            have hvalues := @ih (depth + 1) (by omega)
            exact .structs heq hle hmem hlength (compareRowEnds_compare hvalues _ _ proven)
          · simpa [compareWithin, heq, hmem, hlength] using
              CompareEnds.lengths heq hle hmem hlength
    · unfold compareWithin
      split
      · next a b => exact absurd ⟨a, b, rfl, rfl⟩ hboth
      · exact .objects
      · next hstructs hobjects => exact .data hstructs hobjects

mutual

/-- There is no other outcome. -/
theorem CompareEnds.eq_compareWithin {depth levels : Nat} {proven : ProvenPairs} {v w : Value}
    {found : Comparison} (hdepth : depth + levels = maxNesting + 1) :
    h.CompareEnds depth proven v w found → h.compareWithin h.sameKey levels proven v w = found
  | .data hstructs hobjects => by
    unfold compareWithin
    split
    · exact absurd rfl (hstructs _ _ rfl)
    · exact absurd rfl (hobjects _ _ rfl)
    · rfl
  | .objects => by
    unfold compareWithin
    rfl
  | .same => by
    unfold compareWithin
    simp
  | .tooDeep hne hover => by
    obtain rfl : levels = 0 := by omega
    unfold compareWithin
    simp [hne]
  | .known hne hle hmem => by
    obtain ⟨below, rfl⟩ : ∃ n, levels = n + 1 := ⟨levels - 1, by omega⟩
    unfold compareWithin
    simp [hne, hmem]
  | .lengths hne hle hnew hlength => by
    obtain ⟨below, rfl⟩ : ∃ n, levels = n + 1 := ⟨levels - 1, by omega⟩
    unfold compareWithin
    simp [hne, hnew, hlength]
  | .structs hne hle hnew hlength hrow => by
    obtain ⟨below, rfl⟩ : ∃ n, levels = n + 1 := ⟨levels - 1, by omega⟩
    rw [compareWithin_of_new hne hnew hlength, hrow.eq_compare (by omega)]

theorem CompareRowEnds.eq_compare {depth levels : Nat} {other es : Entries} {proven : ProvenPairs}
    {found : Comparison} (hdepth : depth + levels = maxNesting + 1) :
    h.CompareRowEnds depth other es proven found →
      Entries.compare h.sameKey (h.compareWithin h.sameKey levels) other es proven = found
  | .nil => rfl
  | .missing hget => by simp only [Entries.compare, hget]
  | .unequal hget hfirst hne => by
    have hfound := hfirst.eq_compareWithin hdepth
    simp only [Entries.compare, hget, hfound]
    split
    · exact absurd rfl (hne _)
    · rfl
    · rfl
  | .cons hget hfirst hrest => by
    have hfound := hfirst.eq_compareWithin hdepth
    simp only [Entries.compare, hget, hfound]
    exact hrest.eq_compare hdepth

end

end Comparisons

/-- Every two values are compared by one walk, and the answer is what it ends with. -/
theorem exists_compareEnds (h : Heap Ω) (v w : Value) (instruction : String) :
    ∃ found, (∀ f, h.CompareEnds 1 [] v w f ↔ f = found) ∧
      h.equal v w instruction = found.answer instruction := by
  have hdepth : 1 + maxNesting = maxNesting + 1 := Nat.add_comm 1 maxNesting
  refine ⟨h.compareWithin h.sameKey maxNesting [] v w, fun f => ⟨fun hends => ?_, ?_⟩, ?_⟩
  · exact (hends.eq_compareWithin hdepth).symm
  · rintro rfl
    exact compareEnds_compareWithin hdepth [] v w
  · unfold equal
    cases h.compareWithin h.sameKey maxNesting [] v w with
    | equal proven => rfl
    | different => rfl
    | tooDeep => rfl

end Heap

end ContractVM
