import ContractVM.Proofs.Heap.FirstPaths

/-! # Copies and their originals

    A copy is compared with its original just as it was made.  Both ways go through the structs
    depth first, in the order of the entries, and stop where they were before; the depth counts
    for both of them alike:

    * **The table** of copies is the list of proven pairs, in the same order, at each moment.  So
      the comparison passes over a pair just if the copy passed over the struct.
    * **The levels** that are left when a pair is compared are those that were left when the struct
      was copied.  As the copy did not run out of them, the comparison does not, either. -/

namespace ContractVM

variable {Ω : Type} [HostData Ω]

/-! ## Section 1: Comparing what is known -/

namespace Heap

variable {h : Heap Ω} {same : Value → Value → Bool} {levels : Nat} {proven : ProvenPairs}

/-- A value is equal to itself on every level. -/
theorem compareWithin_self (v : Value) :
    h.compareWithin same levels proven v v = .equal proven := by
  unfold compareWithin
  split
  · exact if_pos rfl
  · exact if_pos (sameObject_refl _)
  · exact if_pos rfl

theorem compareWithin_object {a b : ObjectRef} (hsame : h.sameObject a b = true) :
    h.compareWithin same levels proven (.object a) (.object b) = .equal proven := by
  unfold compareWithin
  exact if_pos hsame

/-- What stands in a row is found by its key. -/
theorem get?_of_mem {es : Entries} (hes : es.Keyed) {e : Value × Value} (he : e ∈ es) :
    Entries.get? h.sameKey e.1 es = some e.2 := by
  have hsame : ∀ k, h.sameKey k e.1 = decide (k = e.1) :=
    fun k => h.sameKey_of_scalar k (hes.scalar e he)
  cases hget : Entries.get? h.sameKey e.1 es with
  | none => exact absurd rfl (Entries.ne_of_get?_eq_none hsame hget he)
  | some w => rw [← hes.eq_of_key (Entries.mem_of_get? hsame hget) he rfl]

/-! ## Section 2: Copying and comparing in step -/

/-- Both ways of comparing a value with its copy find them equal, and go from the pairs that were
    copied before to those that are copied then. -/
def ComparesAs (final : Heap Ω) (levels : Nat) (copies : Copies) (v : Value)
    (c : Copied Ω Value) : Prop :=
  final.compareWithin final.sameKey levels copies v c.result = .equal c.copies ∧
  final.compareWithin final.sameKey levels (copies.map Prod.swap) c.result v =
    .equal (c.copies.map Prod.swap)

variable {base final : Heap Ω} {copies : Copies}

/-- A row is compared with its copy entry by entry, for each key is found in its place. -/
theorem compare_copyEntries {below : Nat} {left right : Entries} (hleft : left.Keyed)
    (hright : right.Keyed) (hrefs : base.Resolved)
    (hbelow : ∀ v, v.Resolves base → ∀ copies h c, base.Tabled copies h →
      copyWithin below v copies h = some c → c.heap.Extends final →
      final.ComparesAs below copies v c)
    {es : Entries} (hes : ∀ e ∈ es, e.2.Resolves base) {copies : Copies} {h : Heap Ω}
    (ht : base.Tabled copies h) {c : Copied Ω Entries}
    (hc : copyEntries (copyWithin below) es copies h = some c) (hext : c.heap.Extends final)
    (hesLeft : ∀ e ∈ es, e ∈ left) (hcRight : ∀ e ∈ c.result, e ∈ right) :
    Entries.compare final.sameKey (final.compareWithin final.sameKey below) right es copies =
      .equal c.copies ∧
    Entries.compare final.sameKey (final.compareWithin final.sameKey below) left c.result
      (copies.map Prod.swap) = .equal (c.copies.map Prod.swap) := by
  induction es generalizing copies h c with
  | nil =>
    cases hc
    exact ⟨rfl, rfl⟩
  | cons e rest ih =>
    obtain ⟨k, v⟩ := e
    simp only [copyEntries, bind, Option.bind_eq_some_iff] at hc
    obtain ⟨c₁, hfirst, c₂, hrest, heq⟩ := hc
    cases heq
    have hv := hes (k, v) List.mem_cons_self
    have hes' := fun e he => hes e (List.mem_cons_of_mem _ he)
    obtain ⟨hcopied, -⟩ := tabledTo_copyWithin hrefs below v hv ht hfirst
    obtain ⟨hcopied', -⟩ := tabledTo_copyEntries
      (fun v _ _ _ hcopy hv ht => tabledTo_copyWithin hrefs below v hv ht hcopy) rest hes'
      hcopied.tabled hrest
    obtain ⟨hway, hback⟩ := hbelow v hv copies h c₁ ht hfirst (hcopied'.grown.trans hext)
    obtain ⟨hways, hbacks⟩ := ih hes' hcopied.tabled hrest hext
      (fun e he => hesLeft e (List.mem_cons_of_mem _ he))
      (fun e he => hcRight e (List.mem_cons_of_mem _ he))
    have hfind := get?_of_mem (h := final) hright (hcRight (k, c₁.result) List.mem_cons_self)
    have hfind' := get?_of_mem (h := final) hleft (hesLeft (k, v) List.mem_cons_self)
    constructor
    · simp only [Entries.compare, hfind, hway]
      exact hways
    · simp only [Entries.compare, hfind', hback]
      exact hbacks

/-- A struct is compared with its copy through their rows, and the pair is known from then on. -/
theorem comparesAs_of_row {below : Nat} (hfinal : ∀ r, (final.entries r).Keyed)
    (hrefs : base.Resolved)
    (hbelow : ∀ v, v.Resolves base → ∀ copies h c, base.Tabled copies h →
      copyWithin below v copies h = some c → c.heap.Extends final →
      final.ComparesAs below copies v c)
    {r : StructRef} (hr : r.index < base.structs.size) {h : Heap Ω} (ht : base.Tabled copies h)
    (hlookup : copies.lookup r = none) {cs : Copied Ω Entries}
    (hcs : copyEntries (copyWithin below) (base.entries r) copies h = some cs)
    (hext : (cs.heap.addStruct cs.result).2.Extends final) :
    final.ComparesAs (below + 1) copies (.struct r)
      ⟨.struct ⟨cs.heap.structs.size⟩, (r, ⟨cs.heap.structs.size⟩) :: cs.copies,
        (cs.heap.addStruct cs.result).2⟩ := by
  obtain ⟨hcopied, hrow⟩ := tabledTo_copyEntries
    (fun v _ _ _ hcopy hv ht => tabledTo_copyWithin hrefs below v hv ht hcopy)
    (base.entries r) (hrefs r) ht hcs
  have hgrown := cs.heap.extends_addStruct cs.result
  have hold : final.entries r = base.entries r :=
    (hcopied.tabled.grown.trans (hgrown.trans hext)).entries_eq hr
  have hnew : final.entries ⟨cs.heap.structs.size⟩ = cs.result := by
    have hlast : cs.heap.structs.size < (cs.heap.addStruct cs.result).2.structs.size := by
      rw [size_addStruct]
      exact Nat.lt_succ_self _
    rw [hext.entries_eq (r := ⟨cs.heap.structs.size⟩) hlast, entries_addStruct, if_pos rfl]
  obtain ⟨hway, hback⟩ := compare_copyEntries (hfinal r) (hfinal ⟨cs.heap.structs.size⟩) hrefs
    hbelow (hrefs r) ht hcs (hgrown.trans hext) (fun e he => by rw [hold]; exact he)
    (fun e he => by rw [hnew]; exact he)
  have hne : r ≠ ⟨cs.heap.structs.size⟩ := by
    rintro rfl
    exact Nat.not_le.mpr hr hcopied.tabled.grown.size_structs
  have hunknown : (r, ⟨cs.heap.structs.size⟩) ∉ copies := not_mem_of_lookup hlookup _
  have hlength : (final.entries r).length = (final.entries ⟨cs.heap.structs.size⟩).length := by
    rw [hold, hnew]
    exact hrow.length_eq
  constructor
  · apply compareWithin_of_equal hne hunknown hlength
    rw [hold]
    exact hway
  · apply compareWithin_of_equal hne.symm ?_ hlength.symm
    · rw [hnew]
      exact hback
    · intro hmem
      obtain ⟨⟨s, t⟩, hpair, hswap⟩ := List.mem_map.mp hmem
      cases hswap
      exact hunknown hpair

/-- Is each datum of the host equal to its duplicate, both ways? -/
def DuplicatesAreSame (Ω : Type) [HostData Ω] : Prop :=
  ∀ x : Ω, HostData.same x (HostData.duplicate x) = true ∧
    HostData.same (HostData.duplicate x) x = true

variable (hhost : DuplicatesAreSame Ω)

include hhost

theorem same_duplicate (x : HostObject Ω) :
    x.same x.duplicate = true ∧ x.duplicate.same x = true := by
  cases x with
  | context c => exact ⟨beq_self_eq_true c.id, beq_self_eq_true c.id⟩
  | datum x => exact hhost x

/-- Objects are the same as their duplicates, and other data as itself. -/
theorem comparesAs_leaf (levels : Nat) {v : Value} (hv : v.Resolves base)
    (hleaf : ∀ r, v ≠ .struct r) {h : Heap Ω} (ht : base.Tabled copies h) {c : Copied Ω Value}
    (hc : copyWithin levels v copies h = some c) (hext : c.heap.Extends final) :
    final.ComparesAs levels copies v c := by
  obtain ⟨hcopied, hmirror⟩ := tabledTo_copyWithin_leaf levels hv hleaf ht hc
  have hcopies : c.copies = copies := by
    unfold copyWithin at hc
    split at hc
    · next r => exact absurd rfl (hleaf r)
    · split at hc
      · cases hc
        rfl
      · cases hc
        rfl
    · cases hc
      rfl
  unfold ComparesAs
  rw [hcopies]
  generalize c.result = w at hmirror
  cases hmirror with
  | struct => exact absurd rfl (hleaf _)
  | @object o p x hold _ hnew =>
    have hold' := (hcopied.tabled.grown.trans hext).object?_eq_some hold
    have hnew' := hext.object?_eq_some hnew
    obtain ⟨hsame, hsame'⟩ := same_duplicate hhost x
    constructor
    · apply compareWithin_object
      unfold sameObject
      rw [hold', hnew', Bool.or_eq_true]
      exact .inr hsame
    · apply compareWithin_object
      unfold sameObject
      rw [hold', hnew', Bool.or_eq_true]
      exact .inr hsame'
  | data => exact ⟨compareWithin_self v, compareWithin_self v⟩

/-- A value is compared with its copy in the steps in which it was copied. -/
theorem comparesAs_copyWithin (hfinal : ∀ r, (final.entries r).Keyed) (hrefs : base.Resolved)
    (levels : Nat) {v : Value} (hv : v.Resolves base) {copies : Copies} {h : Heap Ω}
    (ht : base.Tabled copies h) {c : Copied Ω Value} (hc : copyWithin levels v copies h = some c)
    (hext : c.heap.Extends final) : final.ComparesAs levels copies v c := by
  -- on the levels, as both of them go down into the rows with one level less
  induction levels generalizing v copies h c with
  | zero =>
    cases v with
    | struct r => cases hc
    | _ => exact comparesAs_leaf hhost 0 hv (fun _ => Value.noConfusion) ht hc hext
  | succ below ih =>
    cases v with
    | struct r =>
      have hthere : r.index < base.structs.size := hv.1
      unfold copyWithin at hc
      dsimp only at hc
      split at hc
      · next done hdone =>
        -- it was copied before, and so the pair is known
        cases hc
        have hpair := mem_of_lookup hdone
        have hne : r ≠ done := by
          rintro rfl
          exact Nat.not_le.mpr hthere (ht.new r r hpair).1
        exact ⟨compareWithin_of_mem hne hpair below,
          compareWithin_of_mem hne.symm (List.mem_map.mpr ⟨(r, done), hpair, rfl⟩) below⟩
      · next hlookup =>
        obtain ⟨cs, hcs, heq⟩ := Option.bind_eq_some_iff.mp hc
        cases heq
        rw [ht.grown.entries_eq hthere] at hcs
        exact comparesAs_of_row hfinal hrefs (fun v hv _ _ _ ht hcopy hext => ih hv ht hcopy hext)
          hthere ht hlookup hcs hext
    | _ => exact comparesAs_leaf hhost (below + 1) hv (fun _ => Value.noConfusion) ht hc hext

end Heap

open Heap in
/-- **A copy equals its original.**  Let each datum of the host be equal to its duplicate.  Take a
    heap that was built by checked operations, however deep its structs are nested, and a value in
    it.  If the value is copied, then the copy and the value are equal both ways, right after that:
    none of the comparisons faults. -/
theorem copies_equal_their_originals {Ω : Type} [HostData Ω] (hhost : DuplicatesAreSame Ω)
    {h h' : Heap Ω} (hb : h.Built) {v c : Value} (hv : v.Resolves h) {instruction : String}
    (hcopy : h.deepCopy v instruction = .ok (c, h')) (instruction' : String) :
    h'.equal c v instruction' = .ok true ∧ h'.equal v c instruction' = .ok true := by
  have hsound := (hb.deepCopy hv hcopy).sound
  unfold Heap.deepCopy at hcopy
  split at hcopy
  · next done hdone =>
    cases hcopy
    obtain ⟨hway, hback⟩ := comparesAs_copyWithin hhost hsound.keyed hb.resolved maxNesting hv
      (tabled_nil h) hdone (.refl done.heap)
    exact ⟨equal_of_compareWithin hback, equal_of_compareWithin hway⟩
  · cases hcopy

/-- A struct that is nested beyond `maxNesting`, but is copied all the same, equals its copy. -/
theorem long_chain_equals_its_copy :
    (Heap.stitched 126).NestsBeyond maxNesting (.struct ⟨0⟩) ∧
    ∃ c h', (Heap.stitched 126).deepCopy (.struct ⟨0⟩) "COPY" = .ok (c, h') ∧
      h'.equal c (.struct ⟨0⟩) "EQUAL" = .ok true ∧
      h'.equal (.struct ⟨0⟩) c "EQUAL" = .ok true := by
  obtain ⟨P, Q, hstitched⟩ := Heap.stitched_stitched 126
  have hb := Heap.built_stitched 126
  obtain ⟨⟨c, h'⟩, hcopy⟩ := hstitched.exists_copy hb (by decide) (by decide) "COPY"
  obtain ⟨hback, hway⟩ := copies_equal_their_originals (fun x : Empty => x.elim) hb
    hstitched.resolves hcopy "EQUAL"
  exact ⟨⟨⟨0⟩, rfl, hstitched.descends.1⟩, c, h', hcopy, hback, hway⟩

end ContractVM
