import ContractVM.Heap.Equality
import ContractVM.Heap.Nesting
import ContractVM.Value.Cast

/-! # Structs

    Reading and setting the entries of structs.  A none counts as an empty struct,
    and becomes one when an entry is put into it. -/

namespace ContractVM

/-- What remains of an attempt to put an entry: whether it succeeded, the
    container afterwards and the heap afterwards. -/
structure Put (Ω : Type) where
  result : Except Fault Unit
  container : Value
  heap : Heap Ω

namespace Heap

variable {Ω : Type} [HostData Ω]

/-- A new empty struct. -/
def newStruct (h : Heap Ω) : Value × Heap Ω :=
  let (r, heap) := h.addStruct []
  (.struct r, heap)

/-- Sets an entry of a struct without any check of the key or of the nesting. -/
def insertEntry (h : Heap Ω) (r : StructRef) (key value : Value) : Heap Ω :=
  h.setEntries r ((h.entries r).insert h.sameKey key value)

/-- Sets an entry of a struct, unless the value would bring the struct into itself
    or nest too deep. -/
def putEntry (h : Heap Ω) (r : StructRef) (key value : Value) (instruction : String) :
    Except Fault (Heap Ω) :=
  match h.nesting r value with
  | .clear _ => .ok (h.insertEntry r key value)
  | .cyclic => .error .cyclicStructure
  | .tooDeep => .error (.outOfRange instruction .nesting)

/-- Puts an entry into a container.  The key is checked first; a none becomes a
    struct even if the value is then refused. -/
def put (h : Heap Ω) (container key value : Value) (instruction : String) : Put Ω :=
  match key.asKey instruction with
  | .error f => ⟨.error f, container, h⟩
  | .ok () =>
    let (container, h) := if container = .none then h.newStruct else (container, h)
    match container.asStruct instruction with
    | .error f => ⟨.error f, container, h⟩
    | .ok r =>
      match h.putEntry r key value instruction with
      | .error f => ⟨.error f, container, h⟩
      | .ok h => ⟨.ok (), container, h⟩

/-- The value of an entry, or none if there is no such entry. -/
def get (h : Heap Ω) (container key : Value) (instruction : String) : Except Fault Value := do
  key.asKey instruction
  match container with
  | .none => return .none
  | container =>
    let r ← container.asStruct instruction
    return ((h.entries r).get? h.sameKey key).getD .none

/-- The number of entries. -/
def count (h : Heap Ω) (v : Value) (instruction : String) : Except Fault Nat :=
  match v with
  | .none => .ok 0
  | .struct r => .ok (h.entries r).length
  | v => .error (v.mismatch instruction (.type .struct))

/-- The value converted to a type; a none converts to a new struct. -/
def cast (h : Heap Ω) (v : Value) (t : ValueType) (instruction : String) :
    Except Fault (Value × Heap Ω) :=
  if v = .none ∧ t = .struct then .ok h.newStruct
  else do
    let w ← v.cast t instruction
    return (w, h)

end Heap

end ContractVM
