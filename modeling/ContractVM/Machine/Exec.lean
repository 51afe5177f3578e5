import ContractVM.Machine.Host
import ContractVM.Number.Arithmetic
import ContractVM.Value.Sequence

/-! # Instructions at work

    The effect of each instruction.  An instruction reads its operands, computes,
    and then stores its result, so that a fault on the way leaves the machine as it
    was. -/

namespace ContractVM.Machine

variable {Ω : Type}

/-! ## Section 1: Operands in registers -/

/-- The Boolean in a register; a text does not do. -/
def boolIn (m : Machine Ω) (instruction : String) (index : UInt8) : Except Fault Bool := do
  let v ← m.register index
  v.strictBool instruction

/-- The number in a register. -/
def numberIn (m : Machine Ω) (instruction : String) (index : UInt8) : Except Fault Int := do
  let v ← m.register index
  v.asNumber instruction

/-- The text in a register; a Boolean does not do. -/
def stringIn (m : Machine Ω) (instruction : String) (index : UInt8) : Except Fault String := do
  let v ← m.register index
  v.strictString instruction

/-- The number in a register as an index or a length. -/
def indexIn (m : Machine Ω) (instruction : String) (index : UInt8) : Except Fault Nat := do
  let n ← m.numberIn instruction index
  toIndex n instruction

/-- The number in a register as a shift count or an exponent. -/
def shiftIn (m : Machine Ω) (instruction : String) (index : UInt8) : Except Fault Nat := do
  let n ← m.numberIn instruction index
  toShift n instruction

/-! ## Section 2: Families of instructions -/

/-- A number computed from one number. -/
def unary (m : Machine Ω) (instruction : String) (f : Int → Int) (src dst : UInt8) :
    Outcome Ω Unit :=
  m.store dst do
    let a ← m.numberIn instruction src
    return .number (f a)

/-- A number computed from two numbers. -/
def binary (m : Machine Ω) (instruction : String) (f : Int → Int → Int) (a b dst : UInt8) :
    Outcome Ω Unit :=
  m.store dst do
    let x ← m.numberIn instruction a
    let y ← m.numberIn instruction b
    return .number (f x y)

/-- A comparison of two numbers. -/
def comparison (m : Machine Ω) (instruction : String) (f : Int → Int → Bool) (a b dst : UInt8) :
    Outcome Ω Unit :=
  m.store dst do
    let x ← m.numberIn instruction a
    let y ← m.numberIn instruction b
    return .bool (f x y)

/-- A Boolean computed from two Booleans. -/
def logic (m : Machine Ω) (instruction : String) (f : Bool → Bool → Bool) (a b dst : UInt8) :
    Outcome Ω Unit :=
  m.store dst do
    let x ← m.boolIn instruction a
    let y ← m.boolIn instruction b
    return .bool (f x y)

/-- A division.  The divisor is checked before the dividend is read. -/
def division (m : Machine Ω) (instruction : String) (f : Int → Int → Int) (a b dst : UInt8) :
    Outcome Ω Unit :=
  m.store dst do
    let y ← m.numberIn instruction b
    if y = 0 then .error (.divisionByZero instruction)
    else
      let x ← m.numberIn instruction a
      return .number (f x y)

/-- An operation with a bounded count, which is checked before the number is read. -/
def counted (m : Machine Ω) (instruction : String) (f : Int → Nat → Int) (a b dst : UInt8) :
    Outcome Ω Unit :=
  m.store dst do
    let n ← m.shiftIn instruction b
    let x ← m.numberIn instruction a
    return .number (f x n)

/-- A jump that depends on a Boolean. -/
def branch (m : Machine Ω) (instruction : String) (wanted : Bool) (cond : UInt8)
    (target : UInt32) : Outcome Ω Unit :=
  match m.boolIn instruction cond with
  | .error f => (.error f, m)
  | .ok b => if b = wanted then m.jump target else (.ok (), m)

/-! ## Section 3: Single instructions -/

/-- Moves a value.  The destination is checked before the source is emptied, and a
    register moved to itself keeps its value. -/
def move (m : Machine Ω) (src dst : UInt8) : Outcome Ω Unit :=
  match m.register dst with
  | .error f => (.error f, m)
  | .ok _ =>
    if src = dst then (.ok (), m)
    else match m.register src with
      | .error f => (.error f, m)
      | .ok v => (.ok (), (m.setRegister src .none).setRegister dst v)

/-- Exchanges two registers. -/
def swap (m : Machine Ω) (a b : UInt8) : Outcome Ω Unit :=
  match m.register a, m.register b with
  | .error f, _ => (.error f, m)
  | .ok _, .error f => (.error f, m)
  | .ok v, .ok w => (.ok (), (m.setRegister a w).setRegister b v)

/-- Pushes a register. -/
def pushRegister (config : Config) (m : Machine Ω) (src : UInt8) : Outcome Ω Unit :=
  match m.register src with
  | .error f => (.error f, m)
  | .ok v => m.push config v

/-- Pops into a register, which is checked before the stack is touched. -/
def popRegister (m : Machine Ω) (instruction : String) (dst : UInt8) : Outcome Ω Unit :=
  match m.register dst with
  | .error f => (.error f, m)
  | .ok _ =>
    match m.pop instruction with
    | (.ok v, m) => (.ok (), m.setRegister dst v)
    | (.error f, m) => (.error f, m)

/-- Enters a frame of the current context. -/
def callTarget (config : Config) (m : Machine Ω) (target : UInt32) : Outcome Ω Unit :=
  match m.checkTarget target with
  | .error f => (.error f, m)
  | .ok ip => m.enter config m.frame.context ip

/-- Faults with the text in a register. -/
def throwText (m : Machine Ω) (instruction : String) (msg : UInt8) : Outcome Ω Unit :=
  match m.stringIn instruction msg with
  | .error f => (.error f, m)
  | .ok message => (.error (.userThrow message), m)

/-- Stores a handle of the context whose name is in a register. -/
def contextHandle (registry : Registry) (m : Machine Ω) (instruction : String)
    (name dst : UInt8) : Outcome Ω Unit :=
  m.storeWithHeap dst do
    let name ← m.stringIn instruction name
    let c ← registry.resolve name
    let (r, heap) := m.heap.addObject (.context c)
    return (.object r, heap)

/-- Enters the context of a handle. -/
def switchContext (config : Config) (m : Machine Ω) (instruction : String) (handle : UInt8) :
    Outcome Ω Unit :=
  match (do (m.heap.asContext (← m.register handle) instruction) : Except Fault Context) with
  | .error f => (.error f, m)
  | .ok c =>
    let m := m.note .debug s!"switch {m.frame.context.name} -> {c.name}"
    match config.checkContext c with
    | .error f => (.error f, m)
    | .ok () => m.enter config c 0

section HostData

variable [HostData Ω]

/-- Puts an entry into the struct in a register.  A register that held none keeps
    the new struct even if the value is refused. -/
def putEntry (m : Machine Ω) (instruction : String) (value container key : UInt8) :
    Outcome Ω Unit :=
  match (do return (← m.register value, ← m.register key, ← m.register container) :
      Except Fault (Value × Value × Value)) with
  | .error f => (.error f, m)
  | .ok (v, k, c) =>
    let p := m.heap.put c k v instruction
    (p.result, { m.setRegister container p.container with heap := p.heap })

/-- Calls a host function and goes on as it says. -/
def callHost (env : Env Ω) (m : Machine Ω) (instruction : String) (target : Target) :
    Outcome Ω Unit :=
  let name? : Except Fault String := match target with
    | .named name => .ok name
    | .register index => m.stringIn instruction index
  match name? with
  | .error f => (.error f, m)
  | .ok name =>
    match env.interops.find? name with
    | none => (.error (.unknownInterop name), m)
    | some program =>
      let m := if env.config.trace then m.note .debug s!"extcall {name}" else m
      match program.run env m with
      | (.error f, m) => (.error f, m)
      | (.ok .resume, m) => (.ok (), m)
      | (.ok .halt, m) => (.ok (), { m with status := .halt })
      | (.ok .fault, m) => (.error (.interopFault name "host reported a fault"), m)

/-! ## Section 4: The instruction set -/

/-- The effect of an instruction.  The offset of the current frame has already
    passed it. -/
def exec (env : Env Ω) (m : Machine Ω) (i : Instr UInt32) : Outcome Ω Unit :=
  let name := i.op.mnemonic
  match i with
  | ⟨.nop, ()⟩ => (.ok (), m)
  | ⟨.move, (src, dst, ())⟩ => m.move src dst
  | ⟨.copy, (src, dst, ())⟩ =>
    m.storeWithHeap dst do
      let v ← m.register src
      m.heap.deepCopy v name
  | ⟨.swap, (a, b, ())⟩ => m.swap a b
  | ⟨.load, (dst, literal, ())⟩ => m.assign dst literal.value
  | ⟨.clear, (dst, ())⟩ => m.assign dst .none
  | ⟨.push, (src, ())⟩ => m.pushRegister env.config src
  | ⟨.pop, (dst, ())⟩ => m.popRegister name dst
  | ⟨.jmp, (target, ())⟩ => m.jump target
  | ⟨.jmpIf, (cond, target, ())⟩ => m.branch name true cond target
  | ⟨.jmpNot, (cond, target, ())⟩ => m.branch name false cond target
  | ⟨.call, (target, ())⟩ => m.callTarget env.config target
  | ⟨.ret, ()⟩ => (.ok (), m.leave)
  | ⟨.throw, (msg, ())⟩ => m.throwText name msg
  | ⟨.extCall, (target, ())⟩ => m.callHost env name target
  | ⟨.ctx, (context, dst, ())⟩ => m.contextHandle env.registry name context dst
  | ⟨.switch, (handle, ())⟩ => m.switchContext env.config name handle
  | ⟨.cast, (src, dst, type, ())⟩ =>
    m.storeWithHeap dst do
      let v ← m.register src
      m.heap.cast v type name
  | ⟨.cat, (a, b, dst, ())⟩ =>
    m.store dst do
      let v ← m.register a
      let w ← m.register b
      v.cat w name
  | ⟨.range, (src, dst, index, length, ())⟩ =>
    m.store dst do
      let index ← m.indexIn name index
      let length ← m.indexIn name length
      let v ← m.register src
      v.range index length name
  | ⟨.left, (src, dst, length, ())⟩ =>
    m.store dst do
      let length ← m.indexIn name length
      let v ← m.register src
      v.left length name
  | ⟨.right, (src, dst, length, ())⟩ =>
    m.store dst do
      let length ← m.indexIn name length
      let v ← m.register src
      v.right length name
  | ⟨.size, (src, dst, ())⟩ =>
    m.store dst do
      let v ← m.register src
      let size ← v.size name
      return .number size
  | ⟨.count, (src, dst, ())⟩ =>
    m.store dst do
      let v ← m.register src
      let count ← m.heap.count v name
      return .number count
  | ⟨.not, (src, dst, ())⟩ =>
    m.store dst do
      let b ← m.boolIn name src
      return .bool !b
  | ⟨.and, (a, b, dst, ())⟩ => m.logic name (· && ·) a b dst
  | ⟨.or, (a, b, dst, ())⟩ => m.logic name (· || ·) a b dst
  | ⟨.xor, (a, b, dst, ())⟩ => m.logic name (· ^^ ·) a b dst
  | ⟨.equal, (a, b, dst, ())⟩ =>
    m.store dst do
      let v ← m.register a
      let w ← m.register b
      let same ← m.heap.equal v w name
      return .bool same
  | ⟨.lt, (a, b, dst, ())⟩ => m.comparison name (· < ·) a b dst
  | ⟨.gt, (a, b, dst, ())⟩ => m.comparison name (· > ·) a b dst
  | ⟨.lte, (a, b, dst, ())⟩ => m.comparison name (· ≤ ·) a b dst
  | ⟨.gte, (a, b, dst, ())⟩ => m.comparison name (· ≥ ·) a b dst
  | ⟨.inc, (reg, ())⟩ => m.unary name (· + 1) reg reg
  | ⟨.dec, (reg, ())⟩ => m.unary name (· - 1) reg reg
  | ⟨.sign, (src, dst, ())⟩ => m.unary name Arithmetic.sign src dst
  | ⟨.negate, (src, dst, ())⟩ => m.unary name (- ·) src dst
  | ⟨.abs, (src, dst, ())⟩ => m.unary name (fun n => n.natAbs) src dst
  | ⟨.add, (a, b, dst, ())⟩ => m.binary name (· + ·) a b dst
  | ⟨.sub, (a, b, dst, ())⟩ => m.binary name (· - ·) a b dst
  | ⟨.mul, (a, b, dst, ())⟩ => m.binary name (· * ·) a b dst
  | ⟨.div, (a, b, dst, ())⟩ => m.division name Arithmetic.quotient a b dst
  | ⟨.mod, (a, b, dst, ())⟩ => m.division name Arithmetic.remainder a b dst
  | ⟨.shl, (a, b, dst, ())⟩ => m.counted name Arithmetic.shiftLeft a b dst
  | ⟨.shr, (a, b, dst, ())⟩ => m.counted name Arithmetic.shiftRight a b dst
  | ⟨.min, (a, b, dst, ())⟩ => m.binary name min a b dst
  | ⟨.max, (a, b, dst, ())⟩ => m.binary name max a b dst
  | ⟨.pow, (a, b, dst, ())⟩ => m.counted name Arithmetic.power a b dst
  | ⟨.put, (value, container, key, ())⟩ => m.putEntry name value container key
  | ⟨.get, (container, dst, key, ())⟩ =>
    m.store dst do
      let c ← m.register container
      let k ← m.register key
      m.heap.get c k name

end HostData

end ContractVM.Machine
