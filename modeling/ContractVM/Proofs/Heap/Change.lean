import ContractVM.Heap.Copy
import ContractVM.Heap.Struct
import ContractVM.Proofs.Result

/-! # Changes of the heap

    Scripts, and hosts that keep to the checked operations, change a heap in few ways:
    structs and objects are added, an object is replaced, an entry is put, a value is
    copied.  `Heap.Change` lists them.  What each of them keeps, every run keeps. -/

namespace ContractVM.Heap

variable {Ω : Type} [HostData Ω]

/-- One operation on values leads from the first heap to the second. -/
inductive Change : Heap Ω → Heap Ω → Prop where
  | none (h : Heap Ω) : Change h h
  | newStruct (h : Heap Ω) : Change h h.newStruct.2
  | newObject (h : Heap Ω) (x : HostObject Ω) : Change h (h.addObject x).2
  | setObject (h : Heap Ω) (r : ObjectRef) (x : HostObject Ω) : Change h (h.setObject r x)
  | put (h : Heap Ω) (container key value : Value) (instruction : String) :
      Change h (h.put container key value instruction).heap
  | deepCopy {h heap : Heap Ω} {v w : Value} {instruction : String}
      (hcopy : h.deepCopy v instruction = .ok (w, heap)) : Change h heap

theorem Change.of_eq {h h' : Heap Ω} (heq : h' = h) : h.Change h' := by
  rw [heq]
  exact .none h

/-- A conversion adds an empty struct at most. -/
theorem change_cast {h heap : Heap Ω} {v w : Value} {t : ValueType} {instruction : String}
    (hcast : h.cast v t instruction = .ok (w, heap)) : h.Change heap := by
  unfold Heap.cast at hcast
  split at hcast
  · cases hcast
    exact .newStruct h
  · obtain ⟨u, -, heq⟩ := Except.bind_eq_ok.mp hcast
    cases heq
    exact .none h

end ContractVM.Heap
