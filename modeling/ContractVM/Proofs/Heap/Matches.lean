import ContractVM.Heap.Copy
import ContractVM.Heap.Struct
import ContractVM.Proofs.Result

/-! # Heaps with matching contexts

    Two heaps match if they have the same structs and the same data, and contexts in the same
    places that are counterparts of each other.  Scripts can tell contexts apart by identity
    only, so counterparts must agree in that, and then no operation on values tells the heaps
    apart:

    * **Comparisons and searches** answer the same in both heaps.
    * **Operations that grow a heap** hand out the same references, and leave heaps that match
      again. -/

namespace ContractVM

variable {Ω : Type}

/-! ## Section 1: Counterparts -/

/-- Counterparts have the same name, and are the same contexts if their counterparts are. -/
structure Context.Pairing (K : Context → Context → Prop) : Prop where
  name : ∀ {c c'}, K c c' → c.name = c'.name
  same : ∀ {c c' d d'}, K c c' → K d d' → c.same d = c'.same d'

/-- Objects match if they are the same datum, or handles of counterparts. -/
inductive HostObject.Matches (K : Context → Context → Prop) :
    HostObject Ω → HostObject Ω → Prop where
  | context {c c' : Context} (h : K c c') : Matches K (.context c) (.context c')
  | datum (x : Ω) : Matches K (.datum x) (.datum x)

/-- Heaps match if they have the same structs, and objects that match. -/
structure Heap.MatchesBy (K : Context → Context → Prop) (h h' : Heap Ω) : Prop where
  structs : h.structs = h'.structs
  size : h.objects.size = h'.objects.size
  objects : ∀ {i : Nat} {x x' : HostObject Ω}, h.objects[i]? = some x → h'.objects[i]? = some x' →
    x.Matches K x'

variable {K : Context → Context → Prop}

theorem HostObject.Matches.refl (hK : ∀ c, K c c) (x : HostObject Ω) : x.Matches K x := by
  cases x with
  | context c => exact .context (hK c)
  | datum x => exact .datum x

theorem HostObject.Matches.duplicate [HostData Ω] {x x' : HostObject Ω} (h : x.Matches K x') :
    x.duplicate.Matches K x'.duplicate := by
  cases h with
  | context hc => exact .context hc
  | datum x => exact .datum (HostData.duplicate x)

theorem HostObject.Matches.same [HostData Ω] (hK : Context.Pairing K) {x x' y y' : HostObject Ω}
    (hx : x.Matches K x') (hy : y.Matches K y') : x.same y = x'.same y' := by
  cases hx with
  | context hc =>
    cases hy with
    | context hd => exact hK.same hc hd
    | datum y => rfl
  | datum x =>
    cases hy with
    | context hd => rfl
    | datum y => rfl

namespace Heap

variable {h h' : Heap Ω}

theorem MatchesBy.refl (hK : ∀ c, K c c) (h : Heap Ω) : h.MatchesBy K h where
  structs := rfl
  size := rfl
  objects := by
    intro i x x' hx hx'
    cases hx.symm.trans hx'
    exact .refl hK x

/-! ## Section 2: References -/

theorem MatchesBy.entries_eq (hm : h.MatchesBy K h') (r : StructRef) :
    h.entries r = h'.entries r := by
  unfold entries
  rw [hm.structs]

/-- A reference leads nowhere in both heaps, or to objects that match. -/
theorem MatchesBy.object (hm : h.MatchesBy K h') (r : ObjectRef) :
    Option.Rel (HostObject.Matches K) (h.object? r) (h'.object? r) := by
  unfold object?
  by_cases hr : r.index < h.objects.size
  · have hr' : r.index < h'.objects.size := by rwa [← hm.size]
    have hx : h.objects[r.index]? = some h.objects[r.index] := Array.getElem?_eq_getElem hr
    have hx' : h'.objects[r.index]? = some h'.objects[r.index] := Array.getElem?_eq_getElem hr'
    rw [hx, hx']
    exact .some (hm.objects hx hx')
  · have hr' : ¬ r.index < h'.objects.size := by rwa [← hm.size]
    rw [Array.getElem?_eq_none (Nat.le_of_not_lt hr), Array.getElem?_eq_none (Nat.le_of_not_lt hr')]
    exact .none

/-- The handle of a context is read as one in both heaps, or in neither. -/
theorem MatchesBy.asContext (hm : h.MatchesBy K h') (v : Value) (instruction : String) :
    Except.Rel K (h.asContext v instruction) (h'.asContext v instruction) := by
  unfold Heap.asContext asHost
  cases v with
  | object r =>
    have hr := hm.object r
    dsimp only
    generalize h.object? r = o, h'.object? r = o' at hr
    cases hr with
    | none => exact .error _
    | some hx =>
      cases hx with
      | context hc => exact .ok hc
      | datum x => exact .error _
  | _ => exact .error _

/-- The next object gets the same reference in both heaps. -/
theorem MatchesBy.addObject (hm : h.MatchesBy K h') {x x' : HostObject Ω} (hx : x.Matches K x') :
    (h.addObject x).1 = (h'.addObject x').1 ∧
      (h.addObject x).2.MatchesBy K (h'.addObject x').2 := by
  refine ⟨congrArg ObjectRef.mk hm.size, hm.structs, ?_, ?_⟩
  · show (h.objects.push x).size = (h'.objects.push x').size
    rw [Array.size_push, Array.size_push, hm.size]
  · intro i y y' hy hy'
    change (h.objects.push x)[i]? = some y at hy
    change (h'.objects.push x')[i]? = some y' at hy'
    rw [Array.getElem?_push] at hy hy'
    rw [← hm.size] at hy'
    split at hy
    · next heq =>
      rw [if_pos heq] at hy'
      cases hy
      cases hy'
      exact hx
    · next hne =>
      rw [if_neg hne] at hy'
      exact hm.objects hy hy'

theorem MatchesBy.setObject (hm : h.MatchesBy K h') (r : ObjectRef) {x x' : HostObject Ω}
    (hx : x.Matches K x') : (h.setObject r x).MatchesBy K (h'.setObject r x') := by
  refine ⟨hm.structs, ?_, ?_⟩
  · show (h.objects.setIfInBounds r.index x).size = (h'.objects.setIfInBounds r.index x').size
    rw [Array.size_setIfInBounds, Array.size_setIfInBounds, hm.size]
  · intro i y y' hy hy'
    change (h.objects.setIfInBounds r.index x)[i]? = some y at hy
    change (h'.objects.setIfInBounds r.index x')[i]? = some y' at hy'
    rw [Array.getElem?_setIfInBounds] at hy hy'
    rw [← hm.size] at hy'
    by_cases hi : r.index = i
    · rw [if_pos hi] at hy hy'
      split at hy
      · next hin =>
        rw [if_pos hin] at hy'
        cases hy
        cases hy'
        exact hx
      · cases hy
    · rw [if_neg hi] at hy hy'
      exact hm.objects hy hy'

theorem MatchesBy.addStruct (hm : h.MatchesBy K h') (entries : Entries) :
    (h.addStruct entries).1 = (h'.addStruct entries).1 ∧
      (h.addStruct entries).2.MatchesBy K (h'.addStruct entries).2 := by
  refine ⟨?_, ?_, hm.size, hm.objects⟩
  · exact congrArg (fun structs => StructRef.mk structs.size) hm.structs
  · exact congrArg (fun structs => structs.push entries) hm.structs

theorem MatchesBy.setEntries (hm : h.MatchesBy K h') (r : StructRef) (entries : Entries) :
    (h.setEntries r entries).MatchesBy K (h'.setEntries r entries) := by
  refine ⟨?_, hm.size, hm.objects⟩
  exact congrArg (fun structs => structs.setIfInBounds r.index entries) hm.structs

theorem MatchesBy.newStruct (hm : h.MatchesBy K h') :
    h.newStruct.1 = h'.newStruct.1 ∧ h.newStruct.2.MatchesBy K h'.newStruct.2 := by
  obtain ⟨href, hheap⟩ := hm.addStruct []
  exact ⟨congrArg Value.struct href, hheap⟩

/-! ## Section 3: Comparisons and searches -/

theorem MatchesBy.count_eq (hm : h.MatchesBy K h') (v : Value) (instruction : String) :
    h.count v instruction = h'.count v instruction := by
  cases v with
  | struct r =>
    show Except.ok (h.entries r).length = Except.ok (h'.entries r).length
    rw [hm.entries_eq]
  | _ => rfl

theorem MatchesBy.searchWithin_eq (hm : h.MatchesBy K h') (target : StructRef) (levels : Nat) :
    h.searchWithin target levels = h'.searchWithin target levels := by
  induction levels with
  | zero =>
    funext r searched
    unfold searchWithin
    rfl
  | succ below ih =>
    funext r searched
    unfold searchWithin
    dsimp only
    rw [ih, hm.entries_eq]

theorem MatchesBy.nesting_eq (hm : h.MatchesBy K h') (target : StructRef) (v : Value) :
    h.nesting target v = h'.nesting target v := by
  unfold nesting
  rw [hm.searchWithin_eq]

variable [HostData Ω]

theorem MatchesBy.sameObject_eq (hK : Context.Pairing K) (hm : h.MatchesBy K h') (a b : ObjectRef) :
    h.sameObject a b = h'.sameObject a b := by
  unfold sameObject
  have ha := hm.object a
  have hb := hm.object b
  generalize h.object? a = oa, h'.object? a = oa' at ha
  generalize h.object? b = ob, h'.object? b = ob' at hb
  cases ha with
  | none => rfl
  | some hx =>
    cases hb with
    | none => rfl
    | some hy =>
      dsimp only
      rw [hx.same hK hy]

theorem MatchesBy.compareWithin_eq (hK : Context.Pairing K) (hm : h.MatchesBy K h')
    (sameKey : Value → Value → Bool) (levels : Nat) :
    h.compareWithin sameKey levels = h'.compareWithin sameKey levels := by
  induction levels with
  | zero =>
    funext proven v w
    unfold compareWithin
    simp only [hm.sameObject_eq hK]
  | succ below ih =>
    funext proven v w
    unfold compareWithin
    simp only [ih, hm.sameObject_eq hK, hm.entries_eq]

theorem MatchesBy.sameKeyWithin_eq (hK : Context.Pairing K) (hm : h.MatchesBy K h') (depth : Nat) :
    h.sameKeyWithin depth = h'.sameKeyWithin depth := by
  induction depth with
  | zero => rfl
  | succ depth ih =>
    funext a b
    unfold sameKeyWithin
    rw [ih, hm.compareWithin_eq hK]

theorem MatchesBy.sameKey_eq (hK : Context.Pairing K) (hm : h.MatchesBy K h') :
    h.sameKey = h'.sameKey := by
  funext a b
  unfold sameKey
  rw [hm.structs, hm.sameKeyWithin_eq hK]

theorem MatchesBy.equal_eq (hK : Context.Pairing K) (hm : h.MatchesBy K h') (a b : Value)
    (instruction : String) : h.equal a b instruction = h'.equal a b instruction := by
  unfold equal
  rw [hm.sameKey_eq hK, hm.compareWithin_eq hK]

theorem MatchesBy.get_eq (hK : Context.Pairing K) (hm : h.MatchesBy K h') (container key : Value)
    (instruction : String) :
    h.get container key instruction = h'.get container key instruction := by
  unfold get
  rw [hm.sameKey_eq hK]
  simp only [hm.entries_eq]

/-! ## Section 4: Entries and copies -/

theorem MatchesBy.insertEntry (hK : Context.Pairing K) (hm : h.MatchesBy K h') (r : StructRef)
    (key value : Value) : (h.insertEntry r key value).MatchesBy K (h'.insertEntry r key value) := by
  unfold Heap.insertEntry
  rw [hm.entries_eq, hm.sameKey_eq hK]
  exact hm.setEntries r _

theorem MatchesBy.putEntry (hK : Context.Pairing K) (hm : h.MatchesBy K h') (r : StructRef)
    (key value : Value) (instruction : String) :
    Except.Rel (MatchesBy K) (h.putEntry r key value instruction)
      (h'.putEntry r key value instruction) := by
  unfold Heap.putEntry
  rw [hm.nesting_eq]
  split
  · exact .ok (hm.insertEntry hK r key value)
  · exact .error _
  · exact .error _

/-- A put succeeds in both heaps or fails alike, and leaves the same container. -/
theorem MatchesBy.put (hK : Context.Pairing K) (hm : h.MatchesBy K h') (container key value : Value)
    (instruction : String) :
    (h.put container key value instruction).result =
        (h'.put container key value instruction).result ∧
      (h.put container key value instruction).container =
        (h'.put container key value instruction).container ∧
      (h.put container key value instruction).heap.MatchesBy K
        (h'.put container key value instruction).heap := by
  unfold Heap.put
  cases key.asKey instruction with
  | error f => exact ⟨rfl, rfl, hm⟩
  | ok _ =>
    dsimp only
    -- a none has become a struct, the same in both heaps
    have hmade : (if container = .none then h.newStruct else (container, h)).1 =
          (if container = .none then h'.newStruct else (container, h')).1 ∧
        (if container = .none then h.newStruct else (container, h)).2.MatchesBy K
          (if container = .none then h'.newStruct else (container, h')).2 := by
      split
      · exact hm.newStruct
      · exact ⟨rfl, hm⟩
    generalize (if container = .none then h.newStruct else (container, h)) = made at hmade
    generalize (if container = .none then h'.newStruct else (container, h')) = made' at hmade
    obtain ⟨v, heap⟩ := made
    obtain ⟨v', heap'⟩ := made'
    obtain ⟨rfl, hheap⟩ : v = v' ∧ heap.MatchesBy K heap' := hmade
    dsimp only
    cases v.asStruct instruction with
    | error f => exact ⟨rfl, rfl, hheap⟩
    | ok r =>
      have hentry := hheap.putEntry hK r key value instruction
      dsimp only
      generalize heap.putEntry r key value instruction = o,
        heap'.putEntry r key value instruction = o' at hentry
      cases hentry with
      | error f => exact ⟨rfl, rfl, hheap⟩
      | ok hput => exact ⟨rfl, rfl, hput⟩

/-- The same value, and heaps that match. -/
def Holds (K : Context → Context → Prop) (p p' : Value × Heap Ω) : Prop :=
  p.1 = p'.1 ∧ p.2.MatchesBy K p'.2

omit [HostData Ω] in
theorem MatchesBy.cast (hm : h.MatchesBy K h') (v : Value) (t : ValueType) (instruction : String) :
    Except.Rel (Holds K) (h.cast v t instruction) (h'.cast v t instruction) := by
  unfold Heap.cast
  split
  · exact .ok hm.newStruct
  · cases v.cast t instruction with
    | error f => exact .error f
    | ok w => exact .ok ⟨rfl, hm⟩

/-- The same result and the same copies, and heaps that match. -/
structure CopiesMatch {α : Type} (K : Context → Context → Prop) (c c' : Copied Ω α) : Prop where
  result : c.result = c'.result
  copies : c.copies = c'.copies
  heap : c.heap.MatchesBy K c'.heap

omit [HostData Ω] in
theorem MatchesBy.copyEntries
    {copyValue : Value → Copies → Heap Ω → Option (Copied Ω Value)}
    (hcopy : ∀ v copies {h h' : Heap Ω}, h.MatchesBy K h' →
      Option.Rel (CopiesMatch K) (copyValue v copies h) (copyValue v copies h'))
    (entries : Entries) (copies : Copies) (hm : h.MatchesBy K h') :
    Option.Rel (CopiesMatch K) (Heap.copyEntries copyValue entries copies h)
      (Heap.copyEntries copyValue entries copies h') := by
  induction entries generalizing copies h h' with
  | nil => exact .some ⟨rfl, rfl, hm⟩
  | cons entry rest ih =>
    obtain ⟨k, v⟩ := entry
    have hfirst := hcopy v copies hm
    unfold Heap.copyEntries
    generalize copyValue v copies h = o, copyValue v copies h' = o' at hfirst
    cases hfirst with
    | none => exact .none
    | @some c c' hc =>
      have hrest := ih c.copies hc.heap
      simp only [Option.bind_eq_bind, Option.bind_some, ← hc.copies, ← hc.result]
      generalize Heap.copyEntries copyValue rest c.copies c.heap = o,
        Heap.copyEntries copyValue rest c.copies c'.heap = o' at hrest
      cases hrest with
      | none => exact .none
      | some hcs => exact .some ⟨congrArg ((k, c.result) :: ·) hcs.result, hcs.copies, hcs.heap⟩

theorem MatchesBy.copyObject (levels : Nat) (r : ObjectRef) (copies : Copies)
    (hm : h.MatchesBy K h') :
    Option.Rel (CopiesMatch K) (Heap.copyWithin levels (.object r) copies h)
      (Heap.copyWithin levels (.object r) copies h') := by
  have hr := hm.object r
  unfold Heap.copyWithin
  dsimp only
  generalize h.object? r = o, h'.object? r = o' at hr
  cases hr with
  | none => exact .some ⟨rfl, rfl, hm⟩
  | some hx =>
    obtain ⟨href, hheap⟩ := hm.addObject hx.duplicate
    exact .some ⟨congrArg Value.object href, rfl, hheap⟩

/-- Copies are made alike in both heaps. -/
theorem MatchesBy.copyWithin (levels : Nat) (v : Value) (copies : Copies) (hm : h.MatchesBy K h') :
    Option.Rel (CopiesMatch K) (Heap.copyWithin levels v copies h)
      (Heap.copyWithin levels v copies h') := by
  induction levels generalizing v copies h h' with
  | zero =>
    cases v with
    | struct r => exact .none
    | object r => exact hm.copyObject 0 r copies
    | _ => exact .some ⟨rfl, rfl, hm⟩
  | succ below ih =>
    cases v with
    | struct r =>
      have hentries := hm.copyEntries (fun v copies _ _ hm => ih v copies hm) (h.entries r) copies
      unfold Heap.copyWithin
      dsimp only
      split
      · exact .some ⟨rfl, rfl, hm⟩
      · rw [← hm.entries_eq]
        generalize Heap.copyEntries (Heap.copyWithin below) (h.entries r) copies h = o,
          Heap.copyEntries (Heap.copyWithin below) (h.entries r) copies h' = o' at hentries
        cases hentries with
        | none => exact .none
        | @some cs cs' hcs =>
          obtain ⟨href, hheap⟩ := hcs.heap.addStruct cs.result
          simp only [Option.bind_eq_bind, Option.bind_some, ← hcs.result, ← hcs.copies]
          exact .some ⟨congrArg Value.struct href,
            congrArg (fun copy => (r, copy) :: cs.copies) href, hheap⟩
    | object r => exact hm.copyObject (below + 1) r copies
    | _ => exact .some ⟨rfl, rfl, hm⟩

theorem MatchesBy.deepCopy (hm : h.MatchesBy K h') (v : Value) (instruction : String) :
    Except.Rel (Holds K) (h.deepCopy v instruction) (h'.deepCopy v instruction) := by
  have hcopy := hm.copyWithin maxNesting v []
  unfold Heap.deepCopy
  generalize Heap.copyWithin maxNesting v [] h = o, Heap.copyWithin maxNesting v [] h' = o' at hcopy
  cases hcopy with
  | none => exact .error _
  | some hc => exact .ok ⟨hc.result, hc.heap⟩

end Heap

end ContractVM
