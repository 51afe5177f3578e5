/-! # Decimal numbers

    Reading of decimal integers of any length, and of bounded unsigned numbers.
    Only the ASCII digits count. -/

namespace ContractVM.Text

/-- The value of a row of digits, the most significant first. -/
def decimalValue (digits : List Char) : Nat :=
  Nat.ofDigitChars 10 digits 0

/-- The number written by a non-empty row of digits. -/
def parseDigits? (cs : List Char) : Option Nat :=
  if !cs.isEmpty && cs.all Char.isDigit then some (decimalValue cs) else none

/-- A decimal integer with an optional sign, and nothing else. -/
def parseInteger? (text : String) : Option Int :=
  match text.toList with
  | '-' :: cs => (parseDigits? cs).map fun n => -(n : Int)
  | '+' :: cs => (parseDigits? cs).map fun n => (n : Int)
  | cs => (parseDigits? cs).map fun n => (n : Int)

/-- A decimal number below `bound`; a plus sign may precede it. -/
def parseBounded? (bound : Nat) (cs : List Char) : Option Nat := do
  let n ← parseDigits? (match cs with | '+' :: rest => rest | cs => cs)
  if n < bound then some n else none

/-- The text preceded by `fill` up to a width in characters. -/
def padLeft (fill : Char) (width : Nat) (text : String) : String :=
  String.ofList (List.replicate (width - text.length) fill) ++ text

/-- The digits of a number have its value. -/
theorem decimalValue_toDigits (n : Nat) : decimalValue (Nat.toDigits 10 n) = n := by
  simp [decimalValue]

end ContractVM.Text
