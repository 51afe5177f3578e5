import ContractVM.Heap.Display
import ContractVM.Heap.Struct
import ContractVM.Heap.Copy

/-! # Machine states

    A machine runs one frame and keeps the frames that wait for it.  Every frame
    has registers of its own; the evaluation stack is shared by all frames, and is
    the only way by which values pass between scripts, contexts and the host. -/

namespace ContractVM

/-! ## Section 1: Limits -/

/-- The registers that a script with public methods needs for its dispatcher. -/
def dispatcherRegisters : Nat := 32

/-- The limits of a machine, and whether it notes each instruction. -/
structure Config where
  /-- The registers of a frame. -/
  registers : Nat := 32
  /-- The most frames alive at once, the first included. -/
  callDepth : Nat := 1024
  /-- The most values on the evaluation stack. -/
  stackSize : Nat := 65536
  trace : Bool := false
  deriving DecidableEq, Repr

/-- A context with public methods has to find the registers of its dispatcher. -/
def Config.checkContext (config : Config) (c : Context) : Except Fault Unit :=
  if !c.script.methods.isEmpty && decide (config.registers < dispatcherRegisters) then
    .error (.tooFewRegisters c.name dispatcherRegisters config.registers)
  else .ok ()

/-- The context of a name, or the fault of a name that is not registered. -/
def Registry.resolve (r : Registry) (name : String) : Except Fault Context :=
  match r.find? name with
  | some c => .ok c
  | none => .error (.unknownContext name)

/-! ## Section 2: The journal -/

inductive LogLevel where
  | debug
  | info
  | warn
  | error
  deriving DecidableEq, Repr

/-- A line of the journal. -/
structure LogEntry where
  level : LogLevel
  text : String
  deriving DecidableEq, Repr

/-! ## Section 3: States -/

/-- What a machine is doing. -/
inductive Status where
  | running
  | halt
  | fault
  deriving DecidableEq, Repr

/-- Where a run faulted. -/
structure FaultSite where
  context : String
  /-- The offset of the instruction. -/
  offset : Nat
  line : Option UInt32
  deriving DecidableEq, Repr

/-- The text shown for a fault site. -/
def FaultSite.text (s : FaultSite) : String :=
  s!"{s.context}@{s.offset}" ++ match s.line with
    | some line => s!" (line {line.toNat})"
    | none => ""

/-- One activation of a context: its registers and the offset of the instruction
    that comes next. -/
structure Frame where
  context : Context
  registers : Array Value
  ip : Nat
  deriving DecidableEq, Repr

/-- The value in one of a row of registers. -/
def readRegister (registers : Array Value) (index : UInt8) : Except Fault Value :=
  match registers[index.toNat]? with
  | some v => .ok v
  | none => .error (.invalidRegisterIndex index registers.size)

/-- A frame whose registers are all empty. -/
def Frame.fresh (config : Config) (c : Context) (ip : Nat) : Frame :=
  ⟨c, Array.replicate config.registers .none, ip⟩

/-- Has the frame reached the end of its code? -/
def Frame.atEnd (f : Frame) : Bool :=
  decide (f.context.code.size ≤ f.ip)

/-- The state of a machine whose host lets scripts carry data of type `Ω`. -/
structure Machine (Ω : Type) where
  frame : Frame
  /-- The frames that wait, the innermost first. -/
  callers : List Frame
  /-- The evaluation stack, its bottom first. -/
  stack : Array Value
  status : Status
  /-- The offset of the instruction fetched last. -/
  offset : Nat
  faultSite : Option FaultSite
  heap : Heap Ω
  /-- What was noted so far. -/
  journal : Array LogEntry

/-- The result of an operation on a machine, and the machine afterwards. -/
abbrev Outcome (Ω α : Type) := Except Fault α × Machine Ω

namespace Machine

variable {Ω : Type}

/-- An idle machine that stands before its first run. -/
def initial (config : Config) (entry : Context) (heap : Heap Ω) : Machine Ω where
  frame := Frame.fresh config entry 0
  callers := []
  stack := #[]
  status := .halt
  offset := 0
  faultSite := none
  heap
  journal := #[]

/-- The number of frames alive. -/
def depth (m : Machine Ω) : Nat := m.callers.length + 1

/-- Adds a line to the journal. -/
def note (m : Machine Ω) (level : LogLevel) (text : String) : Machine Ω :=
  { m with journal := m.journal.push ⟨level, text⟩ }

/-! ## Section 4: The evaluation stack -/

/-- Pushes a value, unless the stack is full. -/
def push (config : Config) (v : Value) (m : Machine Ω) : Outcome Ω Unit :=
  if m.stack.size < config.stackSize then
    (.ok (), { m with stack := m.stack.push v })
  else (.error (.stackOverflow config.stackSize), m)

/-- Pops a value. -/
def pop (instruction : String) (m : Machine Ω) : Outcome Ω Value :=
  match m.stack.back? with
  | some v => (.ok v, { m with stack := m.stack.pop })
  | none => (.error (.stackUnderflow instruction), m)

def clearStack (m : Machine Ω) : Machine Ω :=
  { m with stack := #[] }

/-! ## Section 5: Registers -/

/-- The value in a register of the current frame. -/
def register (m : Machine Ω) (index : UInt8) : Except Fault Value :=
  readRegister m.frame.registers index

/-- Replaces the value in a register of the current frame, if there is one. -/
def setRegister (m : Machine Ω) (index : UInt8) (v : Value) : Machine Ω :=
  { m with frame := { m.frame with registers := m.frame.registers.setIfInBounds index.toNat v } }

/-- Stores a value in a register of the current frame. -/
def assign (m : Machine Ω) (index : UInt8) (v : Value) : Outcome Ω Unit :=
  match m.register index with
  | .ok _ => (.ok (), m.setRegister index v)
  | .error f => (.error f, m)

/-- Stores what was computed, if it was. -/
def store (m : Machine Ω) (index : UInt8) (r : Except Fault Value) : Outcome Ω Unit :=
  match r with
  | .ok v => m.assign index v
  | .error f => (.error f, m)

/-- Stores what was computed together with the heap that holds it, if it was. -/
def storeWithHeap (m : Machine Ω) (index : UInt8) (r : Except Fault (Value × Heap Ω)) :
    Outcome Ω Unit :=
  match r, m.register index with
  | .ok (v, heap), .ok _ => (.ok (), { m.setRegister index v with heap })
  | .ok _, .error f => (.error f, m)
  | .error f, _ => (.error f, m)

/-! ## Section 6: Frames -/

/-- A code offset that lies in the current code or at its end. -/
def checkTarget (m : Machine Ω) (target : UInt32) : Except Fault Nat :=
  if target.toNat ≤ m.frame.context.code.size then .ok target.toNat
  else .error (.invalidJumpTarget target.toNat m.frame.context.code.size)

/-- Goes on at an offset of the current code. -/
def jump (m : Machine Ω) (target : UInt32) : Outcome Ω Unit :=
  match m.checkTarget target with
  | .ok ip => (.ok (), { m with frame := { m.frame with ip } })
  | .error f => (.error f, m)

/-- Lets the current frame wait for a fresh one. -/
def enter (config : Config) (c : Context) (ip : Nat) (m : Machine Ω) : Outcome Ω Unit :=
  if config.callDepth ≤ m.depth then
    (.error (.callDepthExceeded config.callDepth), m)
  else
    (.ok (), { m with frame := Frame.fresh config c ip, callers := m.frame :: m.callers })

/-- Resumes the frame that waits, or halts if none does. -/
def leave (m : Machine Ω) : Machine Ω :=
  match m.callers with
  | [] => { m with status := .halt }
  | caller :: callers =>
    let source := m.frame.context
    let m := { m with frame := caller, callers }
    if caller.context.same source then m
    else m.note .debug s!"return {source.name} -> {caller.context.name}"

end Machine

end ContractVM
