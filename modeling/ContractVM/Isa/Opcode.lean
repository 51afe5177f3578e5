import ContractVM.Isa.ValueType

/-! # Opcodes

    The instruction table: each opcode has a byte, a mnemonic and a shape, the
    kinds of its operands in order.  A destination follows the first source, or
    both sources of an opcode with two equal ones; `LOAD`, `CLEAR` and `POP` begin
    with it.  Types, indices, lengths and keys come behind it. -/

namespace ContractVM

/-- What an operand of an instruction can be. -/
inductive OperandKind where
  /-- The index of a register. -/
  | register
  /-- A code offset in the current context. -/
  | address
  /-- A constant. -/
  | literal
  /-- A value type. -/
  | type
  /-- The name of a host function, or a register that holds it. -/
  | target
  deriving DecidableEq, Repr

/-- What an instruction does. -/
inductive Opcode where
  /-- `NOP` does nothing. -/
  | nop
  /-- `MOVE src, dst`: dst takes src, and src becomes none. -/
  | move
  /-- `COPY src, dst`: dst takes a deep copy of src. -/
  | copy
  /-- `SWAP a, b` exchanges two registers. -/
  | swap
  /-- `LOAD dst, literal`: dst takes the constant. -/
  | load
  /-- `CLEAR dst`: dst becomes none. -/
  | clear
  /-- `PUSH src` pushes src onto the evaluation stack. -/
  | push
  /-- `POP dst`: dst takes the top of the evaluation stack. -/
  | pop
  /-- `JMP target` jumps. -/
  | jmp
  /-- `JMPIF cond, target` jumps if cond holds. -/
  | jmpIf
  /-- `JMPNOT cond, target` jumps unless cond holds. -/
  | jmpNot
  /-- `CALL target` enters a new frame of the current context. -/
  | call
  /-- `RET` leaves the current frame; it halts the run in the last one. -/
  | ret
  /-- `THROW msg` faults with the text in msg. -/
  | throw
  /-- `EXTCALL target` calls a host function. -/
  | extCall
  /-- `CTX name, dst`: dst takes a handle of the named context. -/
  | ctx
  /-- `SWITCH handle` enters a context at offset 0 in a new frame. -/
  | switch
  /-- `CAST src, dst, type`: dst takes src converted to the type. -/
  | cast
  /-- `CAT a, b, dst`: dst takes a followed by b. -/
  | cat
  /-- `RANGE src, dst, index, length`: dst takes a part of src. -/
  | range
  /-- `LEFT src, dst, length`: dst takes the first bytes of src. -/
  | left
  /-- `RIGHT src, dst, length`: dst takes the last bytes of src. -/
  | right
  /-- `SIZE src, dst`: dst takes the byte length of src. -/
  | size
  /-- `COUNT src, dst`: dst takes the number of entries of src. -/
  | count
  /-- `NOT src, dst` -/
  | not
  /-- `AND a, b, dst` -/
  | and
  /-- `OR a, b, dst` -/
  | or
  /-- `XOR a, b, dst` -/
  | xor
  /-- `EQUAL a, b, dst`: whether a and b are equal, never so across types. -/
  | equal
  /-- `LT a, b, dst`: whether a is below b. -/
  | lt
  /-- `GT a, b, dst`: whether a is above b. -/
  | gt
  /-- `LTE a, b, dst`: whether a is at most b. -/
  | lte
  /-- `GTE a, b, dst`: whether a is at least b. -/
  | gte
  /-- `INC reg` adds one. -/
  | inc
  /-- `DEC reg` subtracts one. -/
  | dec
  /-- `SIGN src, dst`: dst takes -1, 0 or 1. -/
  | sign
  /-- `NEGATE src, dst` -/
  | negate
  /-- `ABS src, dst` -/
  | abs
  /-- `ADD a, b, dst` -/
  | add
  /-- `SUB a, b, dst` -/
  | sub
  /-- `MUL a, b, dst` -/
  | mul
  /-- `DIV a, b, dst`: the quotient rounded toward zero. -/
  | div
  /-- `MOD a, b, dst`: the remainder, which has the sign of a. -/
  | mod
  /-- `SHL a, b, dst`: a times the b-th power of two. -/
  | shl
  /-- `SHR a, b, dst`: a over the b-th power of two, rounded toward zero. -/
  | shr
  /-- `MIN a, b, dst` -/
  | min
  /-- `MAX a, b, dst` -/
  | max
  /-- `POW a, b, dst`: the b-th power of a. -/
  | pow
  /-- `PUT value, container, key` sets an entry of a struct. -/
  | put
  /-- `GET container, dst, key`: dst takes the entry, or none. -/
  | get
  deriving DecidableEq, Repr

namespace Opcode

/-- Every opcode, in the order of the bytes. -/
def all : List Opcode :=
  [.nop, .move, .copy, .swap, .load, .clear, .push, .pop,
   .jmp, .jmpIf, .jmpNot, .call, .ret, .throw, .extCall, .ctx, .switch,
   .cast, .cat, .range, .left, .right, .size, .count,
   .not, .and, .or, .xor, .equal, .lt, .gt, .lte, .gte,
   .inc, .dec, .sign, .negate, .abs, .add, .sub, .mul, .div, .mod, .shl, .shr, .min, .max, .pow,
   .put, .get]

/-- The byte that stands for the opcode in code. -/
def byte : Opcode → UInt8
  | .nop => 0x00
  | .move => 0x01
  | .copy => 0x02
  | .swap => 0x03
  | .load => 0x04
  | .clear => 0x05
  | .push => 0x06
  | .pop => 0x07
  | .jmp => 0x10
  | .jmpIf => 0x11
  | .jmpNot => 0x12
  | .call => 0x13
  | .ret => 0x14
  | .throw => 0x15
  | .extCall => 0x16
  | .ctx => 0x17
  | .switch => 0x18
  | .cast => 0x20
  | .cat => 0x21
  | .range => 0x22
  | .left => 0x23
  | .right => 0x24
  | .size => 0x25
  | .count => 0x26
  | .not => 0x30
  | .and => 0x31
  | .or => 0x32
  | .xor => 0x33
  | .equal => 0x34
  | .lt => 0x35
  | .gt => 0x36
  | .lte => 0x37
  | .gte => 0x38
  | .inc => 0x40
  | .dec => 0x41
  | .sign => 0x42
  | .negate => 0x43
  | .abs => 0x44
  | .add => 0x45
  | .sub => 0x46
  | .mul => 0x47
  | .div => 0x48
  | .mod => 0x49
  | .shl => 0x4a
  | .shr => 0x4b
  | .min => 0x4c
  | .max => 0x4d
  | .pow => 0x4e
  | .put => 0x50
  | .get => 0x51

/-- The name of the opcode in assembly text and in messages. -/
def mnemonic : Opcode → String
  | .nop => "NOP"
  | .move => "MOVE"
  | .copy => "COPY"
  | .swap => "SWAP"
  | .load => "LOAD"
  | .clear => "CLEAR"
  | .push => "PUSH"
  | .pop => "POP"
  | .jmp => "JMP"
  | .jmpIf => "JMPIF"
  | .jmpNot => "JMPNOT"
  | .call => "CALL"
  | .ret => "RET"
  | .throw => "THROW"
  | .extCall => "EXTCALL"
  | .ctx => "CTX"
  | .switch => "SWITCH"
  | .cast => "CAST"
  | .cat => "CAT"
  | .range => "RANGE"
  | .left => "LEFT"
  | .right => "RIGHT"
  | .size => "SIZE"
  | .count => "COUNT"
  | .not => "NOT"
  | .and => "AND"
  | .or => "OR"
  | .xor => "XOR"
  | .equal => "EQUAL"
  | .lt => "LT"
  | .gt => "GT"
  | .lte => "LTE"
  | .gte => "GTE"
  | .inc => "INC"
  | .dec => "DEC"
  | .sign => "SIGN"
  | .negate => "NEGATE"
  | .abs => "ABS"
  | .add => "ADD"
  | .sub => "SUB"
  | .mul => "MUL"
  | .div => "DIV"
  | .mod => "MOD"
  | .shl => "SHL"
  | .shr => "SHR"
  | .min => "MIN"
  | .max => "MAX"
  | .pow => "POW"
  | .put => "PUT"
  | .get => "GET"

/-- The kinds of the operands, in order. -/
@[reducible] def shape : Opcode → List OperandKind
  | .nop | .ret => []
  | .clear | .push | .pop | .throw | .switch | .inc | .dec => [.register]
  | .move | .copy | .swap | .ctx | .size | .count | .not | .sign | .negate | .abs =>
    [.register, .register]
  | .load => [.register, .literal]
  | .jmp | .call => [.address]
  | .jmpIf | .jmpNot => [.register, .address]
  | .extCall => [.target]
  | .cast => [.register, .register, .type]
  | .range => [.register, .register, .register, .register]
  | .cat | .left | .right | .and | .or | .xor | .equal | .lt | .gt | .lte | .gte
  | .add | .sub | .mul | .div | .mod | .shl | .shr | .min | .max | .pow | .put | .get =>
    [.register, .register, .register]

/-- The number of operands. -/
def arity (op : Opcode) : Nat := op.shape.length

/-- The opcode that a byte stands for. -/
def ofByte? (b : UInt8) : Option Opcode :=
  all.find? fun op => op.byte == b

/-- The opcode of this mnemonic, in any case of its ASCII letters. -/
def ofMnemonic? (name : String) : Option Opcode :=
  all.find? fun op => op.mnemonic.toLower == name.toLower

@[simp] theorem ofByte?_byte (op : Opcode) : ofByte? op.byte = some op := by
  cases op <;> rfl

theorem byte_of_ofByte? {b : UInt8} {op : Opcode} (h : ofByte? b = some op) : op.byte = b := by
  simpa using List.find?_some h

end Opcode

end ContractVM
