import ContractVM.Heap.Copy
import ContractVM.Heap.Struct
import ContractVM.Proofs.Result

/-! # Contexts in the heap

    Scripts meet contexts as objects of the heap.  No operation on values makes a
    context up: what holds of all contexts in a heap also holds of those in the heap
    afterwards, unless the host adds or replaces an object. -/

namespace ContractVM

variable {Ω : Type} {P : Context → Prop}

/-- Does the property hold of the object, if it is a context? -/
def HostObject.ContextIn (P : Context → Prop) : HostObject Ω → Prop
  | .context c => P c
  | .datum _ => True

theorem HostObject.ContextIn.duplicate [HostData Ω] {x : HostObject Ω} (hx : x.ContextIn P) :
    x.duplicate.ContextIn P := by
  cases x with
  | context c => exact hx
  | datum d => trivial

namespace Heap

variable {h : Heap Ω}

/-- Do all contexts in the heap have the property? -/
def ContextsIn (P : Context → Prop) (h : Heap Ω) : Prop :=
  ∀ r x, h.object? r = some x → x.ContextIn P

/-! ## Section 1: Objects -/

theorem contextsIn_empty : (empty : Heap Ω).ContextsIn P := by
  intro r x hx
  unfold object? empty at hx
  simp at hx

theorem ContextsIn.addObject (hp : h.ContextsIn P) {x : HostObject Ω} (hx : x.ContextIn P) :
    (h.addObject x).2.ContextsIn P := by
  intro r y hy
  change (h.objects.push x)[r.index]? = some y at hy
  rw [Array.getElem?_push] at hy
  split at hy
  · cases hy
    exact hx
  · exact hp r y hy

theorem ContextsIn.setObject (hp : h.ContextsIn P) (r : ObjectRef) {x : HostObject Ω}
    (hx : x.ContextIn P) : (h.setObject r x).ContextsIn P := by
  intro s y hy
  change (h.objects.setIfInBounds r.index x)[s.index]? = some y at hy
  rw [Array.getElem?_setIfInBounds] at hy
  split at hy
  · split at hy
    · cases hy
      exact hx
    · cases hy
  · exact hp s y hy

/-- A context that a value refers to is in the heap. -/
theorem ContextsIn.asContext (hp : h.ContextsIn P) {v : Value} {instruction : String}
    {c : Context} (hc : h.asContext v instruction = .ok c) : P c := by
  unfold Heap.asContext asHost at hc
  split at hc
  · next r =>
    cases hobject : h.object? r with
    | none =>
      rw [hobject] at hc
      cases hc
    | some x =>
      rw [hobject] at hc
      have hx := hp r x hobject
      cases x with
      | context d =>
        cases hc
        exact hx
      | datum d => cases hc
  · cases hc

/-! ## Section 2: Structs -/

/-- Structs do not matter. -/
theorem ContextsIn.addStruct (hp : h.ContextsIn P) (entries : Entries) :
    (h.addStruct entries).2.ContextsIn P :=
  hp

theorem ContextsIn.setEntries (hp : h.ContextsIn P) (r : StructRef) (entries : Entries) :
    (h.setEntries r entries).ContextsIn P :=
  hp

theorem ContextsIn.cast (hp : h.ContextsIn P) {v w : Value} {t : ValueType}
    {instruction : String} {heap : Heap Ω} (hc : h.cast v t instruction = .ok (w, heap)) :
    heap.ContextsIn P := by
  unfold Heap.cast at hc
  split at hc
  · cases hc
    exact hp.addStruct []
  · obtain ⟨u, -, heq⟩ := Except.bind_eq_ok.mp hc
    cases heq
    exact hp

theorem ContextsIn.put [HostData Ω] (hp : h.ContextsIn P) (container key value : Value)
    (instruction : String) : (h.put container key value instruction).heap.ContextsIn P := by
  unfold Heap.put
  split
  · exact hp
  · dsimp only
    have hheap : (if container = .none then h.newStruct else (container, h)).2.ContextsIn P := by
      split
      · exact hp.addStruct []
      · exact hp
    split
    · exact hheap
    · split
      · exact hheap
      · next heap hput =>
        unfold Heap.putEntry at hput
        split at hput
        · cases hput
          exact hheap.setEntries _ _
        · cases hput
        · cases hput

/-! ## Section 3: Copies -/

/-- Entries are copied one by one; the heap is what the last of their values leaves. -/
theorem contextsIn_copyEntries {copyValue : Value → Copies → Heap Ω → Option (Copied Ω Value)}
    (hcopy : ∀ v copies (h : Heap Ω) c, copyValue v copies h = some c → h.ContextsIn P →
      c.heap.ContextsIn P)
    (entries : Entries) (copies : Copies) (hp : h.ContextsIn P) {c : Copied Ω Entries}
    (hc : copyEntries copyValue entries copies h = some c) : c.heap.ContextsIn P := by
  induction entries generalizing copies h c with
  | nil =>
    cases hc
    exact hp
  | cons entry rest ih =>
    -- the rest is copied into the heap that the first value leaves
    obtain ⟨k, v⟩ := entry
    simp only [copyEntries, bind, Option.bind_eq_some_iff] at hc
    obtain ⟨c₁, hfirst, c₂, hrest, heq⟩ := hc
    cases heq
    have hlast : c₂.heap.ContextsIn P := ih c₁.copies (hcopy v copies h c₁ hfirst hp) hrest
    exact hlast

variable [HostData Ω]

/-- A copied object is a context only if its original is. -/
theorem contextsIn_copyWithin (levels : Nat) (v : Value) (copies : Copies)
    (hp : h.ContextsIn P) {c : Copied Ω Value} (hc : copyWithin levels v copies h = some c) :
    c.heap.ContextsIn P := by
  induction levels generalizing v copies h c with
  | zero =>
    -- no struct is copied at the last level
    unfold copyWithin at hc
    split at hc
    · cases hc
    · split at hc
      · next x hx =>
        cases hc
        exact hp.addObject (hp _ x hx).duplicate
      · cases hc
        exact hp
    · cases hc
      exact hp
  | succ below ih =>
    unfold copyWithin at hc
    split at hc
    · dsimp only at hc
      split at hc
      · cases hc
        exact hp
      · -- the new struct is added behind the copies of all entries
        obtain ⟨cs, hentries, heq⟩ := Option.bind_eq_some_iff.mp hc
        cases heq
        have hheap := contextsIn_copyEntries
          (fun v copies h c hcopy hp => ih (h := h) v copies hp hcopy) _ copies hp hentries
        exact hheap.addStruct _
    · split at hc
      · next x hx =>
        cases hc
        exact hp.addObject (hp _ x hx).duplicate
      · cases hc
        exact hp
    · cases hc
      exact hp

theorem ContextsIn.deepCopy (hp : h.ContextsIn P) {v w : Value} {instruction : String}
    {heap : Heap Ω} (hc : h.deepCopy v instruction = .ok (w, heap)) : heap.ContextsIn P := by
  unfold Heap.deepCopy at hc
  split at hc
  · next c hcopy =>
    cases hc
    exact contextsIn_copyWithin _ v [] hp hcopy
  · cases hc

end Heap

end ContractVM
