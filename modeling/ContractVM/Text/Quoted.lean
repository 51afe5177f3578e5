import ContractVM.Text.CharClass
import ContractVM.Text.Hex

/-! # Quoted text

    A text is shown between double quotes.  The quote, the backslash and the four
    common controls have short escapes; a character that cannot be shown, or that
    would attach to the one before it, is given by its number in braces. -/

namespace ContractVM.Text

/-- The escape that names a character by its number. -/
def numberEscape (c : Char) : List Char :=
  "\\u\x7b".toList ++ (hexNat c.toNat).toList ++ ['}']

/-- How one character is shown inside double quotes. -/
def quotedChar (c : Char) : List Char :=
  if c = '\x00' then ['\\', '0']
  else if c = '\t' then ['\\', 't']
  else if c = '\r' then ['\\', 'r']
  else if c = '\n' then ['\\', 'n']
  else if c = '"' || c = '\\' then ['\\', c]
  else if isAttaching c then numberEscape c
  else if isPrintable c then [c]
  else numberEscape c

/-- A text between double quotes. -/
def quoted (text : String) : String :=
  String.ofList ('"' :: text.toList.flatMap quotedChar ++ ['"'])

/-- Printable ASCII other than the quote and the backslash stands for itself. -/
theorem quotedChar_of_ascii {c : Char} (h : isPrintableAscii c = true) (hq : c ≠ '"')
    (hb : c ≠ '\\') : quotedChar c = [c] := by
  have hne : ∀ d : Char, isPrintableAscii d = false → c ≠ d := by
    rintro d hd rfl
    simp [h] at hd
  have h0 := hne '\x00' (by decide)
  have ht := hne '\t' (by decide)
  have hr := hne '\r' (by decide)
  have hn := hne '\n' (by decide)
  obtain ⟨hp, he⟩ := isPrintable_of_ascii h
  simp [quotedChar, h0, ht, hr, hn, hq, hb, hp, he]

end ContractVM.Text
