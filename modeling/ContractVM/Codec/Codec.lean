import ContractVM.Codec.Decoder
import ContractVM.Number.LittleEndian

/-! # Codecs

    A codec writes the values of a type as bytes and reads them back.  All forms
    are little-endian and of fixed width, so that a value has one written form:

    - an integer takes its width, a Boolean one byte, 0 or 1;
    - a list, a text or a row of bytes is preceded by its length in eight bytes;
    - an optional value is preceded by a byte, 0 for none and 1 for some;
    - arrays of fixed size and pairs are written without any frame. -/

namespace ContractVM

/-- A way to write and to read the values of a type. -/
structure Codec (α : Type) where
  encode : α → List UInt8
  decode : Decoder α

/-- The longest list, text or row of bytes that is read: 16 Mi elements. -/
def maxLength : Nat := 16 * 1024 * 1024

namespace Codec

/-- The codec of a type given by conversions to and from a coded one. -/
def convert (c : Codec α) (into : β → α) (back : α → β) : Codec β where
  encode b := c.encode (into b)
  decode := c.decode >>= fun a => pure (back a)

/-- Numbers of `width` bytes; only the lowest bytes of a larger one are written. -/
def word (width : Nat) : Codec Nat where
  encode := LittleEndian.bytes width
  decode := Decoder.take width >>= fun bs => pure (LittleEndian.value bs)

def u8 : Codec UInt8 := (word 1).convert UInt8.toNat UInt8.ofNat

def u16 : Codec UInt16 := (word 2).convert UInt16.toNat UInt16.ofNat

def u32 : Codec UInt32 := (word 4).convert UInt32.toNat UInt32.ofNat

def u64 : Codec UInt64 := (word 8).convert UInt64.toNat UInt64.ofNat

/-- Signed words travel as the unsigned word with the same bits. -/
def i64 : Codec Int64 := u64.convert Int64.toUInt64 UInt64.toInt64

/-- One byte, 0 or 1. -/
def bool : Codec Bool where
  encode b := [if b then 1 else 0]
  decode := u8.decode >>= fun b =>
    if b = 0 then pure false else if b = 1 then pure true else Decoder.fail .invalidValue

/-- A length prefix, refused above `maxLength`. -/
def length : Codec Nat where
  encode := (word 8).encode
  decode := (word 8).decode >>= fun n =>
    if maxLength < n then Decoder.fail .lengthOverflow else pure n

/-- A list: its length, then its elements. -/
def list (c : Codec α) : Codec (List α) where
  encode as := length.encode as.length ++ as.flatMap c.encode
  decode := length.decode >>= fun n => Decoder.many c.decode n []

/-- A row of bytes: its length, then the bytes one by one. -/
def bytes : Codec (Array UInt8) :=
  u8.list.convert Array.toList List.toArray

/-- A text: the length of its UTF-8 form, then that form. -/
def string : Codec String where
  encode s := length.encode s.utf8ByteSize ++ s.toUTF8.data.toList
  decode := length.decode >>= fun n => Decoder.take n >>= fun bs =>
    match String.fromUTF8? ⟨bs.toArray⟩ with
    | some s => pure s
    | none => Decoder.fail .invalidValue

/-- An optional value: a byte that says whether it is there, then the value. -/
def option (c : Codec α) : Codec (Option α) where
  encode
    | none => u8.encode 0
    | some a => u8.encode 1 ++ c.encode a
  decode := u8.decode >>= fun tag =>
    if tag = 0 then pure none
    else if tag = 1 then c.decode >>= fun a => pure (some a)
    else Decoder.fail .invalidValue

/-- An array of fixed size: its elements back to back. -/
def array (c : Codec α) (n : Nat) : Codec (Vector α n) where
  encode as := as.toList.flatMap c.encode
  decode := Decoder.many c.decode n [] >>= fun as =>
    if h : as.length = n then pure ⟨as.toArray, by simpa using h⟩
    else Decoder.fail .invalidValue

/-- A pair: its parts back to back. -/
def pair (c : Codec α) (d : Codec β) : Codec (α × β) where
  encode p := c.encode p.1 ++ d.encode p.2
  decode := c.decode >>= fun a => d.decode >>= fun b => pure (a, b)

end Codec

end ContractVM
