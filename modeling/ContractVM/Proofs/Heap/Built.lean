import ContractVM.Proofs.Heap.Chains
import ContractVM.Proofs.Heap.Mirrors
import ContractVM.Proofs.Heap.Puts

/-! # Heaps that were built

    A heap is built from the empty one by checked operations on values that are there.  So it is
    sound, and none of its references dangles:

    * **Puts** add a reference that is there already, or that to a new struct.
    * **Copies** refer to the structs and the objects that were copied together with them. -/

namespace ContractVM

variable {Ω : Type} {h h' : Heap Ω}

/-! ## Section 1: References that are there -/

theorem Value.Resolves.mono {v : Value} (hv : v.Resolves h)
    (hstructs : h.structs.size ≤ h'.structs.size) (hobjects : h.objects.size ≤ h'.objects.size) :
    v.Resolves h' :=
  ⟨hv.1.mono hstructs, fun o ho => Nat.lt_of_lt_of_le (hv.2 o ho) hobjects⟩

namespace Heap

theorem Resolved.closed (hrefs : h.Resolved) : h.Closed :=
  fun r e he => (hrefs r e he).1

theorem resolved_empty : (empty : Heap Ω).Resolved := by
  intro r e he
  rw [entries_of_size_le (Nat.zero_le _)] at he
  cases he

/-- Rows that were there hold what is there, however the heap grows. -/
theorem Resolved.of_entries_eq (hrefs : h.Resolved) (hentries : ∀ r, h'.entries r = h.entries r)
    (hstructs : h.structs.size ≤ h'.structs.size) (hobjects : h.objects.size ≤ h'.objects.size) :
    h'.Resolved := by
  intro r e he
  rw [hentries] at he
  exact (hrefs r e he).mono hstructs hobjects

theorem Resolved.newStruct (hrefs : h.Resolved) : h.newStruct.2.Resolved :=
  hrefs.of_entries_eq h.entries_newStruct (Nat.le_of_lt h.size_lt_newStruct) (Nat.le_refl _)

/-- A struct with entries is there. -/
theorem lt_size_of_entries_ne_nil {r : StructRef} (hne : h.entries r ≠ []) :
    r.index < h.structs.size :=
  Nat.lt_of_not_le fun hout => hne (entries_of_size_le hout)

/-- Whatever an entry behind the first structs holds is listed. -/
theorem mem_objectsFrom {n : Nat} {r : StructRef} (hn : n ≤ r.index) {e : Value × Value}
    (he : e ∈ h.entries r) {o : ObjectRef} (ho : e.2 = .object o) : o ∈ h.objectsFrom n := by
  have hthere := lt_size_of_entries_ne_nil (List.ne_nil_of_mem he)
  have hrow : h.entries r ∈ h.structs.toList.drop n := by
    obtain ⟨k, hk⟩ := Nat.exists_eq_add_of_le hn
    refine List.mem_iff_getElem?.mpr ⟨k, ?_⟩
    unfold entries
    rw [List.getElem?_drop, ← hk, Array.getElem?_toList, Array.getD_eq_getD_getElem?,
      Array.getElem?_eq_getElem hthere]
    rfl
  refine List.mem_flatMap.mpr ⟨h.entries r, hrow, List.mem_flatMap.mpr ⟨e, he, ?_⟩⟩
  rw [ho]
  exact List.mem_singleton_self o

variable [HostData Ω]

theorem Resolved.insertEntry (hrefs : h.Resolved) (r : StructRef) (key : Value) {value : Value}
    (hvalue : value.Resolves h) : (h.insertEntry r key value).Resolved := by
  have hsize : (h.insertEntry r key value).structs.size = h.structs.size := h.size_setEntries r _
  intro s e he
  apply Value.Resolves.mono (h := h) ?_ (Nat.le_of_eq hsize.symm) (Nat.le_refl _)
  unfold Heap.insertEntry at he
  rw [entries_setEntries] at he
  split at he
  · rcases Entries.value_of_mem_insert he with hold | hnew
    · exact hrefs r e hold
    · rw [hnew]
      exact hvalue
  · exact hrefs s e he

theorem Resolved.put (hrefs : h.Resolved) (container key : Value) {value : Value}
    (hvalue : value.Resolves h) (instruction : String) :
    (h.put container key value instruction).heap.Resolved := by
  have hopened : ∀ {r h'}, h.Opens container r h' → h'.Resolved ∧ value.Resolves h' := by
    intro r h' hopens
    cases hopens with
    | struct => exact ⟨hrefs, hvalue⟩
    | none =>
      exact ⟨hrefs.newStruct, hvalue.mono (Nat.le_of_lt h.size_lt_newStruct) (Nat.le_refl _)⟩
  have hputs := h.puts_put container key value instruction
  generalize h.put container key value instruction = put at hputs ⊢
  cases hputs with
  | badKey => exact hrefs
  | badContainer => exact hrefs
  | cyclic _ hopens => exact (hopened hopens).1
  | tooDeep _ hopens => exact (hopened hopens).1
  | stored _ hopens => exact (hopened hopens).1.insertEntry _ key (hopened hopens).2

/-- Copies refer to what has come to the heap with them. -/
theorem Resolved.deepCopy (hrefs : h.Resolved) {v w : Value} (hv : v.Resolves h)
    {instruction : String} (hcopy : h.deepCopy v instruction = .ok (w, h')) : h'.Resolved := by
  obtain ⟨hclosed, -⟩ := hrefs.closed.deepCopy v instruction _ hcopy
  unfold Heap.deepCopy at hcopy
  split at hcopy
  · next c hc =>
    cases hcopy
    obtain ⟨hcopied, -⟩ := tabledTo_copyWithin hrefs maxNesting v hv (tabled_nil h) hc
    have hext := hcopied.grown
    intro r e he
    by_cases hr : r.index < h.structs.size
    · rw [hext.entries_eq hr] at he
      exact (hrefs r e he).mono hext.size_structs hext.size_objects
    · refine ⟨hclosed.closed r e he, fun o ho => ?_⟩
      -- the object stands in a new row, so it is one of those that have come
      have hnone : h.objectsFrom h.structs.size = [] := by
        unfold objectsFrom
        rw [List.drop_eq_nil_of_le (Nat.le_of_eq h.structs.length_toList)]
        rfl
      have hplaced := hcopied.placed
      rw [hnone, List.nil_append] at hplaced
      have hmem := hplaced.mem_iff.mp
        (List.mem_append_left _ (mem_objectsFrom (Nat.not_lt.mp hr) he ho))
      obtain ⟨n, hn, rfl⟩ := List.mem_map.mp hmem
      have hrange := List.mem_range'_1.mp hn
      have hsize := hext.size_objects
      show n < _
      omega
  · cases hcopy

/-! ## Section 2: Building -/

/-- Heaps that arise from the empty one by checked operations on values that are there. -/
inductive Built : Heap Ω → Prop where
  | empty : Built empty
  | newStruct {h : Heap Ω} (hb : Built h) : Built h.newStruct.2
  | newObject {h : Heap Ω} (hb : Built h) (x : HostObject Ω) : Built (h.addObject x).2
  | setObject {h : Heap Ω} (hb : Built h) (r : ObjectRef) (x : HostObject Ω) :
      Built (h.setObject r x)
  | put {h : Heap Ω} (hb : Built h) {container value : Value} (hcontainer : container.Resolves h)
      (key : Value) (hvalue : value.Resolves h) (instruction : String) :
      Built (h.put container key value instruction).heap
  | deepCopy {h h' : Heap Ω} (hb : Built h) {v w : Value} (hv : v.Resolves h)
      {instruction : String} (hcopy : h.deepCopy v instruction = .ok (w, h')) : Built h'

theorem Built.sound (hb : h.Built) : h.Sound := by
  induction hb with
  | empty => exact sound_of_size_eq_zero rfl
  | newStruct _ ih => exact ih.change (.newStruct _)
  | newObject _ x ih => exact ih.change (.newObject _ x)
  | setObject _ r x ih => exact ih.change (.setObject _ r x)
  | put _ _ key _ instruction ih => exact ih.change (.put _ _ key _ instruction)
  | deepCopy _ _ hcopy ih => exact ih.change (.deepCopy hcopy)

theorem Built.resolved (hb : h.Built) : h.Resolved := by
  induction hb with
  | empty => exact resolved_empty
  | newStruct _ ih => exact ih.newStruct
  | @newObject h _ x ih =>
    exact ih.of_entries_eq (fun _ => rfl) (Nat.le_refl _) (h.extends_addObject x).size_objects
  | setObject _ r x ih =>
    exact ih.of_entries_eq (fun _ => rfl) (Nat.le_refl _)
      (Nat.le_of_eq Array.size_setIfInBounds.symm)
  | put _ _ key hvalue instruction ih => exact ih.put _ key hvalue instruction
  | deepCopy _ hv hcopy ih => exact ih.deepCopy hv hcopy

/-! ## Section 3: Chains -/

/-- A new struct may be hung into any struct that is there. -/
theorem Built.hang (hb : h.Built) {r : StructRef} (hr : r.index < h.structs.size) (key : Value) :
    (h.hang r key).Built := by
  have hold : (Value.struct r).Resolves h.newStruct.2 :=
    ⟨Nat.lt_trans hr h.size_lt_newStruct, fun _ => Value.noConfusion⟩
  have hnew : (Value.struct ⟨h.structs.size⟩).Resolves h.newStruct.2 :=
    ⟨h.size_lt_newStruct, fun _ => Value.noConfusion⟩
  exact hb.newStruct.put hold key hnew "PUT"

theorem Built.hangChain {key : Value} (hkey : key.isScalar = true) (n : Nat) {r : StructRef}
    {h : Heap Ω} (hb : h.Built) (hr : r.index < h.structs.size) : (hangChain key n r h).Built := by
  induction n generalizing r h with
  | zero => exact hb
  | succ n ih =>
    apply ih (hb.hang hr key)
    rw [size_hang hkey hr]
    exact Nat.lt_succ_self _

end Heap

end ContractVM
