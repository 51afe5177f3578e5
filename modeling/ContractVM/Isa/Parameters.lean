import ContractVM.Isa.Opcode

/-! # Parameters

    What the machine reads behind an opcode is a table of its own: the parameters of
    what the opcode stands for, in the order in which they are decoded, each with
    what becomes of it.  The shapes of instructions, by which code is written, agree
    with it. -/

namespace ContractVM

/-- What becomes of an operand.  Only registers are written. -/
inductive Parameter where
  /-- An operand that is read. -/
  | source (kind : OperandKind)
  /-- A register that takes the result. -/
  | destination
  /-- A register that is read and written. -/
  | updated
  deriving DecidableEq, Repr

/-- The kind of the operand. -/
@[reducible] def Parameter.kind : Parameter → OperandKind
  | .source kind => kind
  | .destination | .updated => .register

/-- The parameters of an opcode, in the order in which they are decoded.  `MOVE`
    empties the register that it reads, and `PUT` opens a struct in a register that
    holds none. -/
def Opcode.parameters : Opcode → List Parameter
  | .nop => []
  -- registers and stack
  | .move => [.updated, .destination]
  | .copy => [.source .register, .destination]
  | .swap => [.updated, .updated]
  | .load => [.destination, .source .literal]
  | .clear => [.destination]
  | .push => [.source .register]
  | .pop => [.destination]
  -- control flow
  | .jmp => [.source .address]
  | .jmpIf => [.source .register, .source .address]
  | .jmpNot => [.source .register, .source .address]
  | .call => [.source .address]
  | .ret => []
  | .throw => [.source .register]
  | .extCall => [.source .target]
  | .ctx => [.source .register, .destination]
  | .switch => [.source .register]
  -- casts, text and bytes
  | .cast => [.source .register, .destination, .source .type]
  | .cat => [.source .register, .source .register, .destination]
  | .range => [.source .register, .destination, .source .register, .source .register]
  | .left => [.source .register, .destination, .source .register]
  | .right => [.source .register, .destination, .source .register]
  | .size => [.source .register, .destination]
  | .count => [.source .register, .destination]
  -- logic and comparison
  | .not => [.source .register, .destination]
  | .and => [.source .register, .source .register, .destination]
  | .or => [.source .register, .source .register, .destination]
  | .xor => [.source .register, .source .register, .destination]
  | .equal => [.source .register, .source .register, .destination]
  | .lt => [.source .register, .source .register, .destination]
  | .gt => [.source .register, .source .register, .destination]
  | .lte => [.source .register, .source .register, .destination]
  | .gte => [.source .register, .source .register, .destination]
  -- arithmetic
  | .inc => [.updated]
  | .dec => [.updated]
  | .sign => [.source .register, .destination]
  | .negate => [.source .register, .destination]
  | .abs => [.source .register, .destination]
  | .add => [.source .register, .source .register, .destination]
  | .sub => [.source .register, .source .register, .destination]
  | .mul => [.source .register, .source .register, .destination]
  | .div => [.source .register, .source .register, .destination]
  | .mod => [.source .register, .source .register, .destination]
  | .shl => [.source .register, .source .register, .destination]
  | .shr => [.source .register, .source .register, .destination]
  | .min => [.source .register, .source .register, .destination]
  | .max => [.source .register, .source .register, .destination]
  | .pow => [.source .register, .source .register, .destination]
  -- structs
  | .put => [.source .register, .updated, .source .register]
  | .get => [.source .register, .destination, .source .register]

/-- The two tables agree: what is decoded has the shape that is written. -/
theorem Opcode.parameters_kinds (op : Opcode) : op.parameters.map Parameter.kind = op.shape := by
  cases op <;> rfl

end ContractVM
