import ContractVM.Context
import ContractVM.Value.Basic

/-! # The heap

    The heap holds what values refer to: structs, which are rows of entries, and
    objects, which are host data.  References are handed out one after another and
    never taken back, so a reference keeps its meaning while the heap grows. -/

namespace ContractVM

/-- What the machine needs to know of the data that a host lets scripts carry. -/
class HostData (Ω : Type) where
  /-- The name of the datum's type, as messages show it. -/
  typeName : Ω → String
  same : Ω → Ω → Bool
  duplicate : Ω → Ω

/-- What an object value refers to: a context, or a datum of the host. -/
inductive HostObject (Ω : Type) where
  | context (c : Context)
  | datum (x : Ω)

namespace HostObject

variable {Ω : Type} [HostData Ω]

/-- The name that messages show for handles of contexts. -/
def contextTypeName : String := "chainvm::virtual_machine::context::ContextHandle"

def typeName : HostObject Ω → String
  | .context _ => contextTypeName
  | .datum x => HostData.typeName x

/-- Equality of objects: handles of the same context, or equal data. -/
def same : HostObject Ω → HostObject Ω → Bool
  | .context c, .context d => c.same d
  | .datum x, .datum y => HostData.same x y
  | _, _ => false

/-- An independent copy. -/
def duplicate : HostObject Ω → HostObject Ω
  | .context c => .context c
  | .datum x => .datum (HostData.duplicate x)

end HostObject

/-! ## Entries -/

/-- The entries of a struct, in the order of their first insertion. -/
abbrev Entries := List (Value × Value)

namespace Entries

/-- The value of the first entry whose key is the same as `key`. -/
def get? (sameKey : Value → Value → Bool) (key : Value) (entries : Entries) : Option Value :=
  (entries.find? fun entry => sameKey entry.1 key).map Prod.snd

/-- Sets an entry.  A key that is there keeps its place, a new one comes last. -/
def insert (sameKey : Value → Value → Bool) (key value : Value) : Entries → Entries
  | [] => [(key, value)]
  | (k, v) :: rest =>
    if sameKey k key then (k, value) :: rest else (k, v) :: insert sameKey key value rest

end Entries

/-! ## Heaps -/

/-- The structs and objects that values refer to. -/
structure Heap (Ω : Type) where
  structs : Array Entries
  objects : Array (HostObject Ω)

namespace Heap

variable {Ω : Type}

def empty : Heap Ω := ⟨#[], #[]⟩

/-- The entries of a struct. -/
def entries (h : Heap Ω) (r : StructRef) : Entries :=
  h.structs.getD r.index []

/-- The object of a reference. -/
def object? (h : Heap Ω) (r : ObjectRef) : Option (HostObject Ω) :=
  h.objects[r.index]?

/-- Adds a struct. -/
def addStruct (h : Heap Ω) (entries : Entries) : StructRef × Heap Ω :=
  (⟨h.structs.size⟩, { h with structs := h.structs.push entries })

/-- Adds an object. -/
def addObject (h : Heap Ω) (x : HostObject Ω) : ObjectRef × Heap Ω :=
  (⟨h.objects.size⟩, { h with objects := h.objects.push x })

/-- Replaces the entries of a struct. -/
def setEntries (h : Heap Ω) (r : StructRef) (entries : Entries) : Heap Ω :=
  { h with structs := h.structs.setIfInBounds r.index entries }

/-- Replaces an object in place. -/
def setObject (h : Heap Ω) (r : ObjectRef) (x : HostObject Ω) : Heap Ω :=
  { h with objects := h.objects.setIfInBounds r.index x }

/-- Reads a value as host data: `pick` selects the data of the wanted type, which
    messages call `typeName`. -/
def asHost {β : Type} (h : Heap Ω) (typeName : String) (pick : HostObject Ω → Option β)
    (v : Value) (instruction : String) : Except Fault β :=
  match v with
  | .object r =>
    match (h.object? r).bind pick with
    | some x => .ok x
    | none => .error (v.mismatch instruction (.host typeName))
  | _ => .error (v.mismatch instruction (.host typeName))

/-- Reads a value as the handle of a context. -/
def asContext (h : Heap Ω) (v : Value) (instruction : String) : Except Fault Context :=
  h.asHost HostObject.contextTypeName
    (fun | .context c => some c | .datum _ => none) v instruction

end Heap

end ContractVM
