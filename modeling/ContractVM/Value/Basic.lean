import ContractVM.Fault

/-! # Values

    Scalars are plain data.  Structs and objects are references into a heap, so
    that copies of a value share what they refer to. -/

namespace ContractVM

/-- The identity of a struct. -/
structure StructRef where
  index : Nat
  deriving DecidableEq, Repr

/-- The identity of a host object. -/
structure ObjectRef where
  index : Nat
  deriving DecidableEq, Repr

/-- Every datum that scripts handle. -/
inductive Value where
  | none
  | bool (b : Bool)
  | number (n : Int)
  | string (s : String)
  | bytes (bs : Array UInt8)
  /-- Seconds since the start of 1970. -/
  | timestamp (t : UInt32)
  | struct (r : StructRef)
  | enum (e : UInt32)
  | object (r : ObjectRef)
  deriving DecidableEq, Repr, Inhabited

/-- The value that a literal denotes. -/
def Literal.value : Literal → Value
  | .none => .none
  | .bool b => .bool b
  | .number n => .number n
  | .string s => .string s
  | .bytes bs => .bytes bs
  | .timestamp t => .timestamp t
  | .enum e => .enum e

namespace Value

def type : Value → ValueType
  | .none => .none
  | .bool _ => .bool
  | .number _ => .number
  | .string _ => .string
  | .bytes _ => .bytes
  | .timestamp _ => .timestamp
  | .struct _ => .struct
  | .enum _ => .enum
  | .object _ => .object

/-- Can this value be the key of a struct entry? -/
def isScalar : Value → Bool
  | .none | .struct _ | .object _ => false
  | _ => true

/-- The fault of an operation that needed something else than this value. -/
def mismatch (v : Value) (instruction : String) (expected : Expectation) : Fault :=
  .invalidCast instruction expected v.type

/-! ## Typed access

    A text that spells a Boolean is accepted where one is needed, and the other
    way round; branches and logic are stricter. -/

/-- A Boolean, or the text `true` or `false`. -/
def asBool (v : Value) (instruction : String) : Except Fault Bool :=
  match v with
  | .bool b => .ok b
  | .string s =>
    if s = "true" then .ok true
    else if s = "false" then .ok false
    else .error (v.mismatch instruction (.type .bool))
  | _ => .error (v.mismatch instruction (.type .bool))

/-- A Boolean and nothing else. -/
def strictBool (v : Value) (instruction : String) : Except Fault Bool :=
  match v with
  | .bool b => .ok b
  | _ => .error (v.mismatch instruction (.type .bool))

def asNumber (v : Value) (instruction : String) : Except Fault Int :=
  match v with
  | .number n => .ok n
  | _ => .error (v.mismatch instruction (.type .number))

/-- A text, or the spelling of a Boolean. -/
def asString (v : Value) (instruction : String) : Except Fault String :=
  match v with
  | .string s => .ok s
  | .bool b => .ok (toString b)
  | _ => .error (v.mismatch instruction (.type .string))

/-- A text and nothing else. -/
def strictString (v : Value) (instruction : String) : Except Fault String :=
  match v with
  | .string s => .ok s
  | _ => .error (v.mismatch instruction (.type .string))

/-- Bytes, or the UTF-8 form of a text. -/
def asBytes (v : Value) (instruction : String) : Except Fault (Array UInt8) :=
  match v with
  | .bytes bs => .ok bs
  | .string s => .ok s.toUTF8.data
  | _ => .error (v.mismatch instruction (.type .bytes))

def asStruct (v : Value) (instruction : String) : Except Fault StructRef :=
  match v with
  | .struct r => .ok r
  | _ => .error (v.mismatch instruction (.type .struct))

/-- A scalar, as entries need for their keys. -/
def asKey (v : Value) (instruction : String) : Except Fault Unit :=
  if v.isScalar then .ok () else .error (v.mismatch instruction .scalarKey)

end Value

/-! ## Numbers as counts -/

/-- A number as an index or a length: it has to fit 64 bits. -/
def toIndex (n : Int) (instruction : String) : Except Fault Nat :=
  if 0 ≤ n ∧ n < UInt64.size then .ok n.toNat else .error (.outOfRange instruction (.index n))

/-- A number as a shift count or an exponent. -/
def toShift (n : Int) (instruction : String) : Except Fault Nat :=
  if 0 ≤ n ∧ n ≤ maxShift then .ok n.toNat else .error (.outOfRange instruction (.shift n))

end ContractVM
