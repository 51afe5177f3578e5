import ContractVM.Script

/-! # Schemas

    The types that have a binary form, as data: a schema names one of them and
    `Schema.codec` gives its codec. -/

namespace ContractVM

/-- The name of a type with a binary form. -/
inductive Schema where
  | u8
  | u16
  | u32
  | u64
  | i64
  /-- A size, as wide as an unsigned 64-bit word. -/
  | size
  | bool
  | string
  | bytes
  | debug
  | script
  | list (element : Schema)
  | option (element : Schema)
  | array (element : Schema) (count : Nat)
  | pair (first second : Schema)
  deriving DecidableEq, Repr, Inhabited

namespace Schema

/-- The values of the named type. -/
def Carrier : Schema → Type
  | .u8 => UInt8
  | .u16 => UInt16
  | .u32 => UInt32
  | .u64 => UInt64
  | .i64 => Int64
  | .size => UInt64
  | .bool => Bool
  | .string => String
  | .bytes => Array UInt8
  | .debug => DebugInfo
  | .script => Script
  | .list s => List s.Carrier
  | .option s => Option s.Carrier
  | .array s n => Vector s.Carrier n
  | .pair s t => s.Carrier × t.Carrier

/-- The codec of the named type. -/
def codec : (s : Schema) → Codec s.Carrier
  | .u8 => Codec.u8
  | .u16 => Codec.u16
  | .u32 => Codec.u32
  | .u64 => Codec.u64
  | .i64 => Codec.i64
  | .size => Codec.u64
  | .bool => Codec.bool
  | .string => Codec.string
  | .bytes => Codec.bytes
  | .debug => DebugInfo.codec
  | .script => Script.codec
  | .list s => s.codec.list
  | .option s => s.codec.option
  | .array s n => s.codec.array n
  | .pair s t => s.codec.pair t.codec

end Schema

end ContractVM
