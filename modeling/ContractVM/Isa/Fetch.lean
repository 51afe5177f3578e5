import ContractVM.Isa.Instr
import ContractVM.Isa.Parameters
import ContractVM.Text.Hex

/-! # Fetching instructions

    Code is read at an offset: first the opcode, then its operands.  Every read
    checks that it stays inside the code, whatever length the code itself names. -/

namespace ContractVM

/-- Why the payload of a literal cannot be read. -/
inductive PayloadProblem where
  | boolByte (b : UInt8)
  | invalidUtf8
  | noLiteralForm (t : ValueType)
  deriving DecidableEq, Repr

/-- The text shown for a payload that cannot be read. -/
def PayloadProblem.message : PayloadProblem → String
  | .boolByte b => s!"bool byte {b.toNat}"
  | .invalidUtf8 => "string is not valid UTF-8"
  | .noLiteralForm t => s!"{t.name} has no literal form"

/-- What is wrong with code that cannot be read as an instruction. -/
inductive CodeFault where
  /-- No opcode has this byte. -/
  | invalidOpcode (byte : UInt8) (offset : Nat)
  /-- A read of `requested` bytes at `offset` would leave the code. -/
  | codeEnded (offset requested available : Nat)
  /-- No type or target has this tag. -/
  | invalidTag (tag : UInt8) (offset : Nat)
  /-- The operand at `offset` holds no value of its type. -/
  | invalidLiteral (offset : Nat) (problem : PayloadProblem)
  deriving DecidableEq, Repr

/-- The text shown for code that cannot be read. -/
def CodeFault.message : CodeFault → String
  | .invalidOpcode byte offset =>
    "invalid instruction 0x" ++ Text.hexBytes [byte] ++ s!" at offset {offset}"
  | .codeEnded offset requested available =>
    s!"unexpected end of bytecode at {offset}: need {requested} bytes, {available} left"
  | .invalidTag tag offset =>
    "invalid operand tag 0x" ++ Text.hexBytes [tag] ++ s!" at offset {offset}"
  | .invalidLiteral offset problem =>
    s!"invalid literal at offset {offset}: " ++ problem.message

/-- Reads a value from code at an offset and returns the offset behind it. -/
def Reader (α : Type) : Type :=
  Array UInt8 → Nat → Except CodeFault (α × Nat)

namespace Reader

protected def pure (a : α) : Reader α :=
  fun _ offset => .ok (a, offset)

protected def bind (r : Reader α) (f : α → Reader β) : Reader β :=
  fun code offset =>
    match r code offset with
    | .ok (a, next) => f a code next
    | .error e => .error e

instance : Monad Reader where
  pure := Reader.pure
  bind := Reader.bind

/-- The offset at which the reader stands. -/
def position : Reader Nat :=
  fun _ offset => .ok (offset, offset)

def fail (e : CodeFault) : Reader α :=
  fun _ _ => .error e

/-- The next `count` bytes. -/
def chunk (count : Nat) : Reader (Array UInt8) :=
  fun code offset =>
    if offset + count ≤ code.size then
      .ok (code.extract offset (offset + count), offset + count)
    else .error (.codeEnded offset count (code.size - offset))

/-- The next byte. -/
def byte : Reader UInt8 :=
  fun code offset =>
    match code[offset]? with
    | some b => .ok (b, offset + 1)
    | none => .error (.codeEnded offset 1 (code.size - offset))

/-- A little-endian number of `width` bytes. -/
def word (width : Nat) : Reader Nat := do
  let bs ← chunk width
  return LittleEndian.value bs.toList

/-- A row of bytes behind its length in eight bytes. -/
def sized : Reader (Array UInt8) := do
  let count ← word 8
  chunk count

/-- A text behind its length; `start` is where the operand began. -/
def text (start : Nat) : Reader String := do
  let bs ← sized
  match String.fromUTF8? ⟨bs⟩ with
  | some s => return s
  | none => fail (.invalidLiteral start .invalidUtf8)

/-- A type tag. -/
def type : Reader ValueType := do
  let start ← position
  let tag ← byte
  match ValueType.ofTag? tag with
  | some t => return t
  | none => fail (.invalidTag tag start)

/-- The payload of a literal of the given type. -/
def payload (start : Nat) : ValueType → Reader Literal
  | .none => pure .none
  | .bool => do
    let b ← byte
    if b = 0 then return .bool false
    else if b = 1 then return .bool true
    else fail (.invalidLiteral start (.boolByte b))
  | .number => do
    let bs ← sized
    return .number (TwosComplement.decode bs.toList)
  | .string => do
    let s ← text start
    return .string s
  | .bytes => do
    let bs ← sized
    return .bytes bs
  | .timestamp => do
    let n ← word 4
    return .timestamp (UInt32.ofNat n)
  | .enum => do
    let n ← word 4
    return .enum (UInt32.ofNat n)
  | .struct => fail (.invalidLiteral start (.noLiteralForm .struct))
  | .object => fail (.invalidLiteral start (.noLiteralForm .object))

/-- A type tag and a payload of that type. -/
def literal : Reader Literal := do
  let start ← position
  let t ← type
  payload start t

/-- A target: a tag, then a register or a name. -/
def target : Reader Target := do
  let start ← position
  let tag ← byte
  if tag = Target.registerTag then
    let index ← byte
    return .register index
  else if tag = Target.nameTag then
    let name ← text start
    return .named name
  else fail (.invalidTag tag start)

/-- One operand of a kind. -/
def operand : (kind : OperandKind) → Reader (kind.Carrier UInt32)
  | .register => byte
  | .address => do
    let n ← word 4
    return UInt32.ofNat n
  | .literal => literal
  | .type => type
  | .target => target

/-- The operands of these kinds, from the first on. -/
def operands : (kinds : List OperandKind) → Reader (Operands UInt32 kinds)
  | [] => pure ()
  | kind :: kinds => do
    let a ← operand kind
    let rest ← operands kinds
    return (a, rest)

/-- The opcode of the instruction that starts here. -/
def opcode : Reader Opcode := do
  let start ← position
  let b ← byte
  match Opcode.ofByte? b with
  | some op => return op
  | none => fail (.invalidOpcode b start)

/-- The operands behind an opcode: one for each of its parameters. -/
def arguments (op : Opcode) : Reader (Operands UInt32 op.shape) :=
  op.parameters_kinds ▸ operands (op.parameters.map Parameter.kind)

/-- A whole instruction. -/
def instr : Reader (Instr UInt32) := do
  let op ← opcode
  let args ← arguments op
  return ⟨op, args⟩

/-- What is read behind an opcode are operands of its shape. -/
@[simp] theorem arguments_eq (op : Opcode) : arguments op = operands op.shape := by
  cases op <;> rfl

@[simp] theorem pure_apply (a : α) (code : Array UInt8) (offset : Nat) :
    (Pure.pure a : Reader α) code offset = .ok (a, offset) := rfl

theorem bind_apply (r : Reader α) (f : α → Reader β) (code : Array UInt8) (offset : Nat) :
    (r >>= f) code offset = match r code offset with
      | .ok (a, next) => f a code next
      | .error e => .error e := rfl

end Reader

end ContractVM
