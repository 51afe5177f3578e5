import ContractVM.Machine.State

/-! # Host programs

    A host function is a program over the public operations of a machine: it sees
    a view of the machine, acts on it one action at a time, and ends with a reply
    or a fault.  What it cannot do is not an action: the waiting frames and the
    registers of the machine are out of its reach. -/

namespace ContractVM

/-- What a host function sees of the machine that calls it. -/
structure View (Ω : Type) where
  config : Config
  registry : Registry
  /-- The context of the current frame. -/
  context : Context
  registers : Array Value
  depth : Nat
  stack : Array Value
  status : Status
  faultSite : Option FaultSite
  heap : Heap Ω

/-- The value in a register of the current frame. -/
def View.register {Ω : Type} (v : View Ω) (index : UInt8) : Except Fault Value :=
  readRegister v.registers index

/-- One action of a host function.  Each answers with a value, or with the fault
    that the machine would raise; actions without a result answer none. -/
inductive HostAction (Ω : Type) where
  | push (v : Value)
  | pop
  | clearStack
  /-- Asks for a run from the start of the entry script, or from one of its public
      methods. -/
  | requestRun (method : Option String)
  | newStruct
  /-- Puts an entry into a container and answers with the container. -/
  | put (container key value : Value) (instruction : String)
  /-- Sets an entry of a struct without any check. -/
  | insert (r : StructRef) (key value : Value)
  | deepCopy (v : Value) (instruction : String)
  | cast (v : Value) (t : ValueType) (instruction : String)
  | newObject (x : HostObject Ω)
  /-- Replaces the datum of an object in place. -/
  | setObject (r : ObjectRef) (x : HostObject Ω)
  | note (level : LogLevel) (text : String)

/-- A program over the public operations of a machine. -/
inductive HostProgram (Ω α : Type) where
  | reply (a : α)
  | fail (f : Fault)
  | look (next : View Ω → HostProgram Ω α)
  | act (action : HostAction Ω) (next : Except Fault Value → HostProgram Ω α)

/-- How a run goes on after a host function. -/
inductive Verdict where
  | resume
  | halt
  | fault
  deriving DecidableEq, Repr

namespace HostProgram

variable {Ω α β : Type}

protected def bind (p : HostProgram Ω α) (f : α → HostProgram Ω β) : HostProgram Ω β :=
  match p with
  | .reply a => f a
  | .fail e => .fail e
  | .look next => .look fun view => (next view).bind f
  | .act action next => .act action fun answer => (next answer).bind f

instance : Monad (HostProgram Ω) where
  pure := .reply
  bind := .bind

/-- The name under which host functions appear in faults. -/
def instruction : String := "interop"

/-- The view of the machine at this point. -/
def view : HostProgram Ω (View Ω) := .look .reply

/-- Goes on with a result, or fails with its fault. -/
def require : Except Fault α → HostProgram Ω α
  | .ok a => .reply a
  | .error f => .fail f

/-- Acts and answers with the result or the fault. -/
def attempt (action : HostAction Ω) : HostProgram Ω (Except Fault Value) :=
  .act action .reply

/-- Acts, and fails if the machine refuses. -/
def perform (action : HostAction Ω) : HostProgram Ω Value :=
  .act action require

def push (v : Value) : HostProgram Ω Unit := do
  let _ ← perform (.push v)

def pop : HostProgram Ω Value := perform .pop

def popBool : HostProgram Ω Bool := do
  let v ← pop
  require (v.asBool instruction)

def popNumber : HostProgram Ω Int := do
  let v ← pop
  require (v.asNumber instruction)

def popString : HostProgram Ω String := do
  let v ← pop
  require (v.asString instruction)

def popBytes : HostProgram Ω (Array UInt8) := do
  let v ← pop
  require (v.asBytes instruction)

/-- Pops an object and selects host data of the wanted type from it. -/
def popHost (typeName : String) (pick : HostObject Ω → Option α) : HostProgram Ω α := do
  let v ← pop
  let view ← view
  require (view.heap.asHost typeName pick v instruction)

def note (level : LogLevel) (text : String) : HostProgram Ω Unit := do
  let _ ← perform (.note level text)

end HostProgram

/-! ## The table of host functions -/

/-- The host functions that scripts call by name, in the order of their
    registration. -/
structure InteropTable (Ω : Type) where
  bindings : List (String × HostProgram Ω Verdict)

namespace InteropTable

variable {Ω : Type}

def empty : InteropTable Ω := ⟨[]⟩

def size (t : InteropTable Ω) : Nat := t.bindings.length

/-- The host function of a name. -/
def find? (t : InteropTable Ω) (name : String) : Option (HostProgram Ω Verdict) :=
  t.bindings.lookup name

/-- Registers a host function under a name that no other has. -/
def register (t : InteropTable Ω) (name : String) (p : HostProgram Ω Verdict) :
    Except RegistrationError (InteropTable Ω) :=
  if (t.find? name).isSome then .error (.duplicateInterop name)
  else .ok ⟨t.bindings ++ [(name, p)]⟩

/-- The registered names, sorted. -/
def names (t : InteropTable Ω) : List String :=
  sortedNames (t.bindings.map Prod.fst)

/-- The table as text: its names, sorted and quoted. -/
def text (t : InteropTable Ω) : String :=
  "InteropTable \x7b bindings: [" ++ String.intercalate ", " (t.names.map Text.quoted) ++ "] \x7d"

end InteropTable

/-! ## Environments and the run of a host program -/

/-- What stays the same while a machine runs. -/
structure Env (Ω : Type) where
  config : Config
  /-- The context in which runs start. -/
  entry : Context
  registry : Registry
  interops : InteropTable Ω

namespace Machine

variable {Ω : Type}

/-- What a host function sees. -/
def view (env : Env Ω) (m : Machine Ω) : View Ω where
  config := env.config
  registry := env.registry
  context := m.frame.context
  registers := m.frame.registers
  depth := m.depth
  stack := m.stack
  status := m.status
  faultSite := m.faultSite
  heap := m.heap

/-- Puts the machine before the instruction at `ip` of the entry context, with a
    fresh frame and none that waits. -/
def start (env : Env Ω) (ip : Nat) (m : Machine Ω) : Machine Ω :=
  { m with
    frame := Frame.fresh env.config env.entry ip
    callers := []
    status := .running
    offset := ip
    faultSite := none }

/-- Prepares a run of the entry script, from offset 0 or from a public method.
    While the machine runs, the request is refused and changes nothing. -/
def requestRun (env : Env Ω) (method : Option String) (m : Machine Ω) : Outcome Ω Unit :=
  if m.status = .running then (.error .nestedRun, m)
  else match method with
    | none => (.ok (), m.start env 0)
    | some name =>
      match env.entry.script.methodOffset? name with
      | some offset => (.ok (), m.start env offset.toNat)
      | none =>
        let m := m.note .warn s!"no public method '{name}' in {env.entry.name}"
        (.error (.unknownLabel name), { m with status := .fault, faultSite := none })

/-- The outcome of an operation without a result, answered as none. -/
def answer (o : Outcome Ω Unit) : Outcome Ω Value :=
  (o.1.map fun () => .none, o.2)

variable [HostData Ω]

/-- One action of a host function on the machine. -/
def perform (env : Env Ω) (action : HostAction Ω) (m : Machine Ω) : Outcome Ω Value :=
  match action with
  | .push v => answer (m.push env.config v)
  | .pop => m.pop HostProgram.instruction
  | .clearStack => (.ok .none, m.clearStack)
  | .requestRun method => answer (m.requestRun env method)
  | .newStruct =>
    let (v, heap) := m.heap.newStruct
    (.ok v, { m with heap })
  | .put container key value instruction =>
    let p := m.heap.put container key value instruction
    (p.result.map fun () => p.container, { m with heap := p.heap })
  | .insert r key value => (.ok .none, { m with heap := m.heap.insertEntry r key value })
  | .deepCopy v instruction =>
    match m.heap.deepCopy v instruction with
    | .ok (v, heap) => (.ok v, { m with heap })
    | .error f => (.error f, m)
  | .cast v t instruction =>
    match m.heap.cast v t instruction with
    | .ok (v, heap) => (.ok v, { m with heap })
    | .error f => (.error f, m)
  | .newObject x =>
    let (r, heap) := m.heap.addObject x
    (.ok (.object r), { m with heap })
  | .setObject r x => (.ok .none, { m with heap := m.heap.setObject r x })
  | .note level text => (.ok .none, m.note level text)

end Machine

/-- Runs a host program on a machine. -/
def HostProgram.run {Ω α : Type} [HostData Ω] (env : Env Ω) :
    HostProgram Ω α → Machine Ω → Outcome Ω α
  | .reply a, m => (.ok a, m)
  | .fail f, m => (.error f, m)
  | .look next, m => (next (m.view env)).run env m
  | .act action next, m =>
    let (answer, m) := m.perform env action
    (next answer).run env m

end ContractVM
