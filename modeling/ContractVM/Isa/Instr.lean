import ContractVM.Codec.Codec
import ContractVM.Isa.Opcode
import ContractVM.Number.TwosComplement

/-! # Instructions

    An instruction is an opcode with operands of its shape.  The type of its
    addresses is a parameter: code holds offsets, assembly text also labels.  An
    instruction is encoded as its opcode byte followed by its operands. -/

namespace ContractVM

/-- A constant of `LOAD`.  Structs and objects have none. -/
inductive Literal where
  | none
  | bool (b : Bool)
  | number (n : Int)
  | string (s : String)
  | bytes (bs : Array UInt8)
  | timestamp (t : UInt32)
  | enum (e : UInt32)
  deriving DecidableEq, Repr

namespace Literal

def type : Literal → ValueType
  | .none => .none
  | .bool _ => .bool
  | .number _ => .number
  | .string _ => .string
  | .bytes _ => .bytes
  | .timestamp _ => .timestamp
  | .enum _ => .enum

/-- The encoding behind the type tag.  A number travels as the bytes of its two's
    complement form. -/
def payload : Literal → List UInt8
  | .none => []
  | .bool b => Codec.bool.encode b
  | .number n => Codec.bytes.encode (TwosComplement.encode n).toArray
  | .string s => Codec.string.encode s
  | .bytes bs => Codec.bytes.encode bs
  | .timestamp t => Codec.u32.encode t
  | .enum e => Codec.u32.encode e

/-- The type tag, then the payload. -/
def encode (l : Literal) : List UInt8 :=
  l.type.tag :: l.payload

end Literal

/-- What `EXTCALL` calls: the host function of a name, or of the name that a
    register holds. -/
inductive Target where
  | register (index : UInt8)
  | named (name : String)
  deriving DecidableEq, Repr

namespace Target

/-- The tag of a target given by a register. -/
def registerTag : UInt8 := 0

/-- The tag of a target given by its name. -/
def nameTag : UInt8 := 1

/-- The tag, then the register or the name. -/
def encode : Target → List UInt8
  | .register index => [registerTag, index]
  | .named name => nameTag :: Codec.string.encode name

end Target

/-! ## Operands -/

/-- The values of a kind of operand, given those of addresses. -/
@[reducible] def OperandKind.Carrier (A : Type) : OperandKind → Type
  | .register => UInt8
  | .address => A
  | .literal => Literal
  | .type => ValueType
  | .target => Target

/-- One value for each kind of a shape. -/
@[reducible] def Operands (A : Type) : List OperandKind → Type
  | [] => Unit
  | kind :: kinds => kind.Carrier A × Operands A kinds

/-- An opcode with its operands, whose addresses are of type `A`. -/
structure Instr (A : Type) where
  op : Opcode
  args : Operands A op.shape

/-- Replaces the address in an operand. -/
def OperandKind.mapAddress {A B ε : Type} (f : A → Except ε B) :
    (kind : OperandKind) → kind.Carrier A → Except ε (kind.Carrier B)
  | .register, r => .ok r
  | .address, a => f a
  | .literal, l => .ok l
  | .type, t => .ok t
  | .target, t => .ok t

/-- Replaces the addresses in operands, from the first on. -/
def Operands.mapAddress {A B ε : Type} (f : A → Except ε B) :
    (kinds : List OperandKind) → Operands A kinds → Except ε (Operands B kinds)
  | [], () => .ok ()
  | kind :: kinds, (a, rest) => do
    let b ← kind.mapAddress f a
    let rest ← Operands.mapAddress f kinds rest
    return (b, rest)

/-- Replaces the addresses in an instruction. -/
def Instr.mapAddress {A B ε : Type} (f : A → Except ε B) (i : Instr A) : Except ε (Instr B) := do
  let args ← Operands.mapAddress f i.op.shape i.args
  return ⟨i.op, args⟩

/-! ## Encoding -/

/-- The bytes of one operand; `address` writes addresses. -/
def OperandKind.encode {A : Type} (address : A → List UInt8) :
    (kind : OperandKind) → kind.Carrier A → List UInt8
  | .register, r => [r]
  | .address, a => address a
  | .literal, l => l.encode
  | .type, t => [t.tag]
  | .target, t => t.encode

/-- The bytes of operands, one after another. -/
def Operands.encode {A : Type} (address : A → List UInt8) :
    (kinds : List OperandKind) → Operands A kinds → List UInt8
  | [], () => []
  | kind :: kinds, (a, rest) => kind.encode address a ++ Operands.encode address kinds rest

/-- The bytes of an instruction; `address` writes addresses. -/
def Instr.encodeWith {A : Type} (address : A → List UInt8) (i : Instr A) : List UInt8 :=
  i.op.byte :: Operands.encode address i.op.shape i.args

/-- The bytes of an instruction whose addresses are offsets. -/
def Instr.encode (i : Instr UInt32) : List UInt8 :=
  i.encodeWith Codec.u32.encode

/-- The encoded length, which no address changes: each takes four bytes. -/
def Instr.encodedLength {A : Type} (i : Instr A) : Nat :=
  (i.encodeWith fun _ => List.replicate 4 0).length

end ContractVM
