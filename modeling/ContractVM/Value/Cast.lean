import ContractVM.Text.Decimal
import ContractVM.Value.Basic

/-! # Conversions

    Explicit conversion of a value to another type.  Pairs of types that are not
    listed here have no conversion; every value converts to none. -/

namespace ContractVM.Value

/-- A number that fits an unsigned word of 32 bits. -/
def word32? (n : Int) : Option UInt32 :=
  if 0 ≤ n ∧ n < UInt32.size then some (UInt32.ofNat n.toNat) else Option.none

/-- The value as a Boolean: zero is false. -/
def toBool (v : Value) (instruction : String) : Except Fault Value :=
  match v with
  | .bool _ | .string _ => (v.asBool instruction).map .bool
  | .number n => .ok (.bool (n != 0))
  | _ => .error (v.mismatch instruction (.type .bool))

/-- The value as a number.  A text has to be a decimal integer. -/
def toNumber (v : Value) (instruction : String) : Except Fault Value :=
  match v with
  | .number n => .ok (.number n)
  | .string s =>
    match Text.parseInteger? s with
    | .some n => .ok (.number n)
    | .none => .error (v.mismatch instruction (.type .number))
  | .bool b => .ok (.number (if b then 1 else 0))
  | .timestamp t => .ok (.number t.toNat)
  | .enum e => .ok (.number e.toNat)
  | .bytes bs => .ok (.number (TwosComplement.decode bs.toList))
  | _ => .error (v.mismatch instruction (.type .number))

/-- The value as a text.  Bytes have to be UTF-8. -/
def toText (v : Value) (instruction : String) : Except Fault Value :=
  match v with
  | .string s => .ok (.string s)
  | .bool b => .ok (.string (toString b))
  | .number n => .ok (.string (toString n))
  | .timestamp t => .ok (.string (toString t.toNat))
  | .enum e => .ok (.string (toString e.toNat))
  | .bytes bs =>
    match String.fromUTF8? ⟨bs⟩ with
    | .some s => .ok (.string s)
    | .none => .error (.outOfRange instruction .invalidUtf8)
  | _ => .error (v.mismatch instruction (.type .string))

/-- The value as bytes. -/
def toBytes (v : Value) (instruction : String) : Except Fault Value :=
  match v with
  | .bytes bs => .ok (.bytes bs)
  | .string s => .ok (.bytes s.toUTF8.data)
  | .number n => .ok (.bytes (TwosComplement.encode n).toArray)
  | .bool b => .ok (.bytes #[if b then 1 else 0])
  | .timestamp t => .ok (.bytes (LittleEndian.bytes 4 t.toNat).toArray)
  | .enum e => .ok (.bytes (LittleEndian.bytes 4 e.toNat).toArray)
  | _ => .error (v.mismatch instruction (.type .bytes))

/-- The value as a timestamp. -/
def toTimestamp (v : Value) (instruction : String) : Except Fault Value :=
  match v with
  | .timestamp t => .ok (.timestamp t)
  | .number n =>
    match word32? n with
    | .some t => .ok (.timestamp t)
    | .none => .error (.outOfRange instruction (.timestamp n))
  | _ => .error (v.mismatch instruction (.type .timestamp))

/-- The value as an enum. -/
def toEnum (v : Value) (instruction : String) : Except Fault Value :=
  match v with
  | .enum e => .ok (.enum e)
  | .number n =>
    match word32? n with
    | .some e => .ok (.enum e)
    | .none => .error (.outOfRange instruction (.enum n))
  | _ => .error (v.mismatch instruction (.type .enum))

/-- The value converted to a type, where no struct has to be made for it. -/
def cast (v : Value) (t : ValueType) (instruction : String) : Except Fault Value :=
  match t with
  | .none => .ok .none
  | .bool => v.toBool instruction
  | .number => v.toNumber instruction
  | .string => v.toText instruction
  | .bytes => v.toBytes instruction
  | .timestamp => v.toTimestamp instruction
  | .enum => v.toEnum instruction
  | .struct | .object =>
    if v.type = t then .ok v else .error (v.mismatch instruction (.type t))

end ContractVM.Value
