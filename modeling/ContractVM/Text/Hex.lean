/-! # Hexadecimal digits

    Bytes are written as two lower-case digits; both cases are read. -/

namespace ContractVM.Text

/-- The digit of a value below 16. -/
def hexDigit (n : Nat) : Char :=
  if n < 10 then Char.ofNat (48 + n) else Char.ofNat (87 + n)

/-- The value of a hexadecimal digit of either case. -/
def hexValue? (c : Char) : Option Nat :=
  if '0' ≤ c && c ≤ '9' then some (c.toNat - 48)
  else if 'a' ≤ c && c ≤ 'f' then some (c.toNat - 87)
  else if 'A' ≤ c && c ≤ 'F' then some (c.toNat - 55)
  else none

/-- A byte as two digits, the high one first. -/
def hexByte (b : UInt8) : List Char :=
  [hexDigit (b.toNat / 16), hexDigit (b.toNat % 16)]

/-- Bytes as digits, two for each. -/
def hexBytes (bs : List UInt8) : String :=
  String.ofList (bs.flatMap hexByte)

/-- A number in hexadecimal without leading zeros. -/
def hexNat (n : Nat) : String :=
  String.ofList (Nat.toDigits 16 n)

/-- The byte written by a pair of characters; a plus sign may stand for the
    first digit. -/
def hexPair? (a b : Char) : Option UInt8 := do
  let low ← hexValue? b
  if a = '+' then
    return UInt8.ofNat low
  let high ← hexValue? a
  return UInt8.ofNat (16 * high + low)

theorem hexValue?_hexDigit : ∀ n < 16, hexValue? (hexDigit n) = some n := by decide

theorem hexDigit_ne_plus : ∀ n < 16, hexDigit n ≠ '+' := by decide

/-- A written byte reads back. -/
theorem hexPair?_hexDigit (b : UInt8) :
    hexPair? (hexDigit (b.toNat / 16)) (hexDigit (b.toNat % 16)) = some b := by
  have hb := b.toNat_lt
  have hhigh : b.toNat / 16 < 16 := by omega
  have hlow : b.toNat % 16 < 16 := by omega
  have hsum : UInt8.ofNat (16 * (b.toNat / 16) + b.toNat % 16) = b := by
    rw [show 16 * (b.toNat / 16) + b.toNat % 16 = b.toNat by omega, UInt8.ofNat_toNat]
  simp only [hexPair?, hexValue?_hexDigit _ hhigh, hexValue?_hexDigit _ hlow,
    hexDigit_ne_plus _ hhigh, if_false, hsum, bind, Option.bind_some, pure]

end ContractVM.Text
