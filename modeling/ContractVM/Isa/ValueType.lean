/-! # Value types

    Each value carries one of nine types.  In code a type is a tag byte, in
    assembly text a name in any case. -/

namespace ContractVM

/-- The type of a value. -/
inductive ValueType where
  | none
  | bool
  | number
  | string
  | bytes
  | timestamp
  | struct
  | enum
  | object
  deriving DecidableEq, Repr

namespace ValueType

/-- Every type, in the order of the tags. -/
def all : List ValueType :=
  [.none, .bool, .number, .string, .bytes, .timestamp, .struct, .enum, .object]

def name : ValueType → String
  | .none => "None"
  | .bool => "Bool"
  | .number => "Number"
  | .string => "String"
  | .bytes => "Bytes"
  | .timestamp => "Timestamp"
  | .struct => "Struct"
  | .enum => "Enum"
  | .object => "Object"

/-- The byte that stands for a type in code. -/
def tag : ValueType → UInt8
  | .none => 0
  | .bool => 1
  | .number => 2
  | .string => 3
  | .bytes => 4
  | .timestamp => 5
  | .struct => 6
  | .enum => 7
  | .object => 8

/-- The type that a byte stands for. -/
def ofTag? (b : UInt8) : Option ValueType :=
  all.find? fun t => t.tag == b

/-- The type of this name, in any case of its ASCII letters. -/
def ofName? (name : String) : Option ValueType :=
  all.find? fun t => t.name.toLower == name.toLower

@[simp] theorem ofTag?_tag (t : ValueType) : ofTag? t.tag = some t := by
  cases t <;> rfl

theorem tag_of_ofTag? {b : UInt8} {t : ValueType} (h : ofTag? b = some t) : t.tag = b := by
  simpa using List.find?_some h

end ValueType

end ContractVM
