import ContractVM.Script

/-! # Contexts

    A context is a named script that other scripts can enter.  Contexts are told
    apart by identity, not by name: a registry gives each of its contexts a number
    of its own, and a context outside it takes the next free one. -/

namespace ContractVM

/-- A named script. -/
structure Context where
  /-- The identity of the context. -/
  id : Nat
  name : String
  script : Script
  deriving DecidableEq, Repr

namespace Context

def code (c : Context) : Array UInt8 := c.script.code

/-- Are these the same context, whatever their names? -/
def same (c d : Context) : Bool := c.id == d.id

end Context

/-- Why a name cannot be registered. -/
inductive RegistrationError where
  | duplicateContext (name : String)
  | duplicateInterop (name : String)
  deriving DecidableEq, Repr

/-- The text shown for a refused registration. -/
def RegistrationError.message : RegistrationError → String
  | .duplicateContext name => s!"context {name} already registered"
  | .duplicateInterop name => s!"interop {name} already registered"

/-- Names in the order of their code points. -/
def sortedNames (names : List String) : List String :=
  names.mergeSort fun a b => decide (a ≤ b)

/-- The contexts that scripts find by name, in the order of their registration. -/
structure Registry where
  contexts : List Context
  deriving DecidableEq, Repr

namespace Registry

def empty : Registry := ⟨[]⟩

def size (r : Registry) : Nat := r.contexts.length

/-- The context of a name. -/
def find? (r : Registry) (name : String) : Option Context :=
  r.contexts.find? fun c => c.name == name

/-- A context over a script that is not registered. -/
def unregistered (r : Registry) (name : String) (script : Script) : Context :=
  ⟨r.size, name, script⟩

/-- Registers a script under a name that no other context has. -/
def register (r : Registry) (name : String) (script : Script) :
    Except RegistrationError (Context × Registry) :=
  if (r.find? name).isSome then .error (.duplicateContext name)
  else
    let c := r.unregistered name script
    .ok (c, ⟨r.contexts ++ [c]⟩)

/-- The registered names, sorted. -/
def names (r : Registry) : List String :=
  sortedNames (r.contexts.map Context.name)

end Registry

end ContractVM
