import ContractVM.Machine.Exec

/-! # Runs

    A run repeats one step until the machine no longer runs.  A step fetches an
    instruction and executes it; at the end of the code it leaves the frame, as
    `RET` does.  Scripts may run forever, so a run is given a number of steps and
    has no outcome if they do not suffice. -/

namespace ContractVM.Machine

variable {Ω : Type} [HostData Ω]

/-- The line that a machine notes for an instruction. -/
def traceLine (m : Machine Ω) (op : Opcode) : String :=
  s!"[{m.frame.context.name}:" ++ Text.padLeft '0' 4 (toString m.offset) ++
    s!"] {op.mnemonic} (frames={m.depth}, stack={m.stack.size})"

/-- Fetches the instruction at the offset of the current frame.  An opcode is noted
    as soon as it is known, before its operands are read. -/
def fetch (env : Env Ω) (m : Machine Ω) : Outcome Ω (Instr UInt32) :=
  let code := m.frame.context.code
  match Reader.opcode code m.offset with
  | .error f => (.error (.code f), m)
  | .ok (op, next) =>
    let m := if env.config.trace then m.note .debug (m.traceLine op) else m
    match Reader.arguments op code next with
    | .error f => (.error (.code f), m)
    | .ok (args, ip) => (.ok ⟨op, args⟩, { m with frame := { m.frame with ip } })

/-- One step of a running machine. -/
def step (env : Env Ω) (m : Machine Ω) : Outcome Ω Unit :=
  if m.frame.atEnd then (.ok (), m.leave)
  else
    match fetch env { m with offset := m.frame.ip } with
    | (.error f, m) => (.error f, m)
    | (.ok i, m) => m.exec env i

/-- Steps until the machine no longer runs, at most `fuel` times. -/
def steps (env : Env Ω) : Nat → Machine Ω → Option (Outcome Ω Unit)
  | 0, _ => none
  | fuel + 1, m =>
    if m.status = .running then
      match step env m with
      | (.ok (), m) => steps env fuel m
      | (.error f, m) => some (.error f, m)
    else some (.ok (), m)

/-- A run may begin if the current context has its registers and the offset lies in
    its code. -/
def checkStart (env : Env Ω) (m : Machine Ω) : Except Fault Unit := do
  env.config.checkContext m.frame.context
  let length := m.frame.context.code.size
  if length < m.frame.ip then
    .error (.invalidJumpTarget m.frame.ip length)

/-- The place of the instruction fetched last. -/
def site (m : Machine Ω) : FaultSite where
  context := m.frame.context.name
  offset := m.offset
  line := m.frame.context.script.lineFor m.offset

/-- The end of a run.  A fault is noted with its site, and no frame waits any
    longer. -/
def finish : Outcome Ω Unit → Outcome Ω Unit
  | (.ok (), m) => (.ok (), { m with status := .halt })
  | (.error f, m) =>
    let m := m.note .warn s!"execution faulted at {m.site.text}: {f.message}"
    (.error f, { m with status := .fault, faultSite := some m.site, callers := [] })

/-- A run from where the machine was put, of at most `fuel` steps. -/
def run (env : Env Ω) (fuel : Nat) (m : Machine Ω) : Option (Outcome Ω Unit) :=
  match m.checkStart env with
  | .error f => some (finish (.error f, m))
  | .ok () => (steps env fuel m).map finish

/-- Runs the entry script, from offset 0 or from a public method. -/
def runFrom (env : Env Ω) (fuel : Nat) (method : Option String) (m : Machine Ω) :
    Option (Outcome Ω Unit) :=
  match m.requestRun env method with
  | (.error f, m) => some (.error f, m)
  | (.ok (), m) => m.run env fuel

/-- Runs the entry script from offset 0. -/
def execute (env : Env Ω) (fuel : Nat) (m : Machine Ω) : Option (Outcome Ω Unit) :=
  m.runFrom env fuel none

/-- Runs the entry script from a public method. -/
def invoke (env : Env Ω) (fuel : Nat) (method : String) (m : Machine Ω) :
    Option (Outcome Ω Unit) :=
  m.runFrom env fuel (some method)

end ContractVM.Machine
