import ContractVM.Heap.Struct

/-! # Entries

    The rows of entries that structs consist of, and where a heap keeps them:

    * **Keys**: scalars are compared like data, so setting an entry keeps the keys of a row
      apart and in place.
    * **Rows of a heap**: what is read after a struct was added or its row was replaced. -/

namespace ContractVM

/-! ## Section 1: Keys -/

/-- Are the keys of the entries scalars, no two of them the same? -/
structure Entries.Keyed (entries : Entries) : Prop where
  scalar : ∀ e ∈ entries, e.1.isScalar = true
  distinct : (entries.map Prod.fst).Nodup

namespace Entries

variable {same : Value → Value → Bool} {key : Value}

theorem keyed_nil : Keyed [] where
  scalar _ he := absurd he List.not_mem_nil
  distinct := List.nodup_nil

/-- Keys that are compared like data stay in place, and a new one comes last. -/
theorem map_fst_insert (hsame : ∀ k, same k key = decide (k = key)) (value : Value)
    (entries : Entries) : (insert same key value entries).map Prod.fst =
      if key ∈ entries.map Prod.fst then entries.map Prod.fst
      else entries.map Prod.fst ++ [key] := by
  induction entries with
  | nil => rfl
  | cons e rest ih =>
    obtain ⟨k, v⟩ := e
    by_cases hk : k = key
    · subst hk
      simp [insert, hsame]
    · have hne : ¬key = k := Ne.symm hk
      simp only [insert, hsame, hk, decide_false, Bool.false_eq_true, if_false, List.map_cons, ih,
        List.mem_cons, hne, false_or]
      split
      · rfl
      · rfl

/-- Only the set entry is new. -/
theorem mem_insert (hsame : ∀ k, same k key = decide (k = key)) {value : Value}
    {entries : Entries} {e : Value × Value} (he : e ∈ insert same key value entries) :
    e ∈ entries ∨ e = (key, value) := by
  induction entries with
  | nil => exact .inr (List.mem_singleton.mp he)
  | cons first rest ih =>
    obtain ⟨k, v⟩ := first
    by_cases hk : k = key
    · simp only [insert, hsame, hk, decide_true, if_true] at he
      rcases List.mem_cons.mp he with rfl | hrest
      · exact .inr rfl
      · exact .inl (List.mem_cons_of_mem _ hrest)
    · simp only [insert, hsame, hk, decide_false, Bool.false_eq_true, if_false] at he
      rcases List.mem_cons.mp he with rfl | hrest
      · exact .inl List.mem_cons_self
      · rcases ih hrest with hold | hnew
        · exact .inl (List.mem_cons_of_mem _ hold)
        · exact .inr hnew

/-- An entry with a new key comes behind the others. -/
theorem insert_of_new {value : Value} {entries : Entries}
    (hnew : ∀ e ∈ entries, same e.1 key = false) :
    insert same key value entries = entries ++ [(key, value)] := by
  induction entries with
  | nil => rfl
  | cons e rest ih =>
    obtain ⟨k, v⟩ := e
    have hk : same k key = false := hnew _ List.mem_cons_self
    have hrest := ih fun e he => hnew e (List.mem_cons_of_mem _ he)
    simp only [insert, hk, Bool.false_eq_true, if_false, hrest, List.cons_append]

/-- Setting an entry with a scalar key keeps the keys apart. -/
theorem Keyed.insert {entries : Entries} (h : entries.Keyed)
    (hsame : ∀ k, same k key = decide (k = key)) (hkey : key.isScalar = true) (value : Value) :
    (Entries.insert same key value entries).Keyed where
  scalar e he := by
    rcases mem_insert hsame he with hold | rfl
    · exact h.scalar e hold
    · exact hkey
  distinct := by
    rw [map_fst_insert hsame]
    by_cases hmem : key ∈ entries.map Prod.fst
    · rw [if_pos hmem]
      exact h.distinct
    · rw [if_neg hmem]
      have hdisjoint : ∀ k ∈ entries.map Prod.fst, ∀ k' ∈ [key], k ≠ k' := by
        intro k hk k' hk'
        rw [List.mem_singleton.mp hk']
        rintro rfl
        exact hmem hk
      exact List.nodup_append.mpr ⟨h.distinct, by simp, hdisjoint⟩

end Entries

namespace Heap

/-! ## Section 2: Comparing scalars -/

section Equality

variable {Ω : Type} [HostData Ω] (h : Heap Ω)

/-- A scalar is compared like data, with whatever it is compared. -/
theorem compareWithin_of_scalar (same : Value → Value → Bool) (levels : Nat)
    (proven : ProvenPairs) (v : Value) {w : Value} (hw : w.isScalar = true) :
    h.compareWithin same levels proven v w = if v = w then .equal proven else .different := by
  unfold compareWithin
  split
  · cases hw
  · cases hw
  · rfl

theorem equals_of_scalar (v : Value) {w : Value} (hw : w.isScalar = true) :
    h.equals v w = decide (v = w) := by
  unfold equals
  rw [h.compareWithin_of_scalar _ _ _ v hw]
  by_cases heq : v = w
  · simp [heq, Comparison.isEqual]
  · simp [heq, Comparison.isEqual]

theorem sameKey_of_scalar (k : Value) {key : Value} (hkey : key.isScalar = true) :
    h.sameKey k key = decide (k = key) := by
  unfold sameKey sameKeyWithin
  rw [h.compareWithin_of_scalar _ _ _ k hkey]
  by_cases heq : k = key
  · simp [heq, Comparison.isEqual]
  · simp [heq, Comparison.isEqual]

end Equality

/-! ## Section 3: Rows of a heap -/

section Rows

variable {Ω : Type} {h : Heap Ω}

/-- A struct that is not there has no entries. -/
theorem entries_of_size_le {r : StructRef} (hr : h.structs.size ≤ r.index) : h.entries r = [] := by
  unfold entries
  rw [Array.getD_eq_getD_getElem?, Array.getElem?_eq_none hr]
  rfl

theorem entries_addStruct (es : Entries) (r : StructRef) :
    (h.addStruct es).2.entries r = if r.index = h.structs.size then es else h.entries r := by
  show (h.structs.push es).getD r.index [] = _
  rw [Array.getD_eq_getD_getElem?, Array.getElem?_push]
  split
  · rfl
  · exact (Array.getD_eq_getD_getElem? ..).symm

theorem entries_setEntries (r s : StructRef) (es : Entries) :
    (h.setEntries r es).entries s =
      if r = s ∧ r.index < h.structs.size then es else h.entries s := by
  show (h.structs.setIfInBounds r.index es).getD s.index [] = _
  rw [Array.getD_eq_getD_getElem?, Array.getElem?_setIfInBounds]
  by_cases hrs : r = s
  · subst hrs
    by_cases hin : r.index < h.structs.size
    · simp [hin]
    · have hout := entries_of_size_le (Nat.not_lt.mp hin)
      simp [hin, hout]
  · have hne : r.index ≠ s.index := by
      intro heq
      apply hrs
      cases r
      cases s
      exact congrArg StructRef.mk heq
    rw [if_neg hne, if_neg (fun hboth => hrs hboth.1)]
    exact (Array.getD_eq_getD_getElem? ..).symm

end Rows

end Heap

end ContractVM
