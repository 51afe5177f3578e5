import ContractVM.Proofs.Assembly.Printed

/-! # The grammar of literals

    Which tokens are literals, and what they stand for:

    * **The grammar** says which characters spell which literal, as documented or with the
      liberties that the reader grants beyond it.
    * **The parts** of a token, its digits and its escapes, are read as the grammar has them.
    * **Liberties** are a plus sign behind a mark, where no sign belongs, and a quote in a quoted
      text that nothing hides.
    * **Tokens** are read if and only if they are spelled with liberties, and are documented if
      and only if they take none. -/

namespace ContractVM

namespace Assembly

open Text

/-! ## Section 1: The grammar -/

/-- A hexadecimal digit of either case. -/
def IsHexDigit (c : Char) (n : Nat) : Prop :=
  n < 16 ∧ (c = hexDigit n ∨ c = (hexDigit n).toUpper)

/-- One or more decimal digits. -/
def IsDecimal (cs : List Char) : Prop :=
  cs ≠ [] ∧ ∀ c ∈ cs, c.isDigit = true

/-- Pairs of hexadecimal digits.  Where liberties are taken, a plus sign may stand for the first
    digit of a pair. -/
inductive SpellsBytes (liberal : Bool) : List Char → List UInt8 → Prop where
  | nil : SpellsBytes liberal [] []
  | pair {a b : Char} {high low : Nat} {cs : List Char} {bs : List UInt8}
    (hhigh : IsHexDigit a high) (hlow : IsHexDigit b low) (hrest : SpellsBytes liberal cs bs) :
    SpellsBytes liberal (a :: b :: cs) (UInt8.ofNat (16 * high + low) :: bs)
  | plus {b : Char} {low : Nat} {cs : List Char} {bs : List UInt8} (hliberal : liberal = true)
    (hlow : IsHexDigit b low) (hrest : SpellsBytes liberal cs bs) :
    SpellsBytes liberal ('+' :: b :: cs) (UInt8.ofNat low :: bs)

/-- A number of 32 bits without a sign.  Where liberties are taken, a plus sign may precede it. -/
inductive SpellsWord (liberal : Bool) : List Char → UInt32 → Prop where
  | digits {cs : List Char} (hdigits : IsDecimal cs) (hbound : decimalValue cs < UInt32.size) :
    SpellsWord liberal cs (UInt32.ofNat (decimalValue cs))
  | plus {cs : List Char} (hliberal : liberal = true) (hdigits : IsDecimal cs)
    (hbound : decimalValue cs < UInt32.size) :
    SpellsWord liberal ('+' :: cs) (UInt32.ofNat (decimalValue cs))

/-- A number of any size with an optional sign. -/
inductive SpellsInteger : List Char → Int → Prop where
  | digits {cs : List Char} (hdigits : IsDecimal cs) : SpellsInteger cs (decimalValue cs)
  | plus {cs : List Char} (hdigits : IsDecimal cs) : SpellsInteger ('+' :: cs) (decimalValue cs)
  | minus {cs : List Char} (hdigits : IsDecimal cs) : SpellsInteger ('-' :: cs) (-decimalValue cs)

/-- The characters with an escape, each behind the one that names it. -/
def escapes : List (Char × Char) := [('"', '"'), ('\\', '\\'), ('n', '\n'), ('t', '\t')]

/-- The body of a quoted text.  Where liberties are taken, a quote may stand for itself. -/
inductive SpellsText (liberal : Bool) : List Char → List Char → Prop where
  | nil : SpellsText liberal [] []
  | plain {c : Char} {cs ds : List Char} (hback : c ≠ '\\') (hquote : liberal = true ∨ c ≠ '"')
    (hrest : SpellsText liberal cs ds) : SpellsText liberal (c :: cs) (c :: ds)
  | escaped {c d : Char} {cs ds : List Char} (hescape : (c, d) ∈ escapes)
    (hrest : SpellsText liberal cs ds) : SpellsText liberal ('\\' :: c :: cs) (d :: ds)

/-- The literal that characters spell, as documented or with liberties. -/
inductive Spells (liberal : Bool) : List Char → Literal → Prop where
  | noneWord : Spells liberal ['n', 'o', 'n', 'e'] .none
  | trueWord : Spells liberal ['t', 'r', 'u', 'e'] (.bool true)
  | falseWord : Spells liberal ['f', 'a', 'l', 's', 'e'] (.bool false)
  | bytes {cs : List Char} {bs : List UInt8} (h : SpellsBytes liberal cs bs) :
    Spells liberal ('0' :: 'x' :: cs) (.bytes bs.toArray)
  | timestamp {cs : List Char} {n : UInt32} (h : SpellsWord liberal cs n) :
    Spells liberal ('t' :: 's' :: ':' :: cs) (.timestamp n)
  | enum {cs : List Char} {n : UInt32} (h : SpellsWord liberal cs n) :
    Spells liberal ('e' :: 'n' :: 'u' :: 'm' :: ':' :: cs) (.enum n)
  | number {cs : List Char} {n : Int} (h : SpellsInteger cs n) : Spells liberal cs (.number n)
  | string {cs ds : List Char} (h : SpellsText liberal cs ds) :
    Spells liberal ('"' :: (cs ++ ['"'])) (.string (String.ofList ds))

/-! ## Section 2: Digits -/

/-- Hexadecimal digits are ASCII. -/
theorem toNat_of_hexValue? {c : Char} {n : Nat} (h : hexValue? c = some n) : c.toNat < 128 := by
  have hrange : ∀ first last : Char, (first ≤ c && c ≤ last) = true → c.toNat ≤ last.toNat :=
    fun _ _ h => UInt32.le_iff_toNat_le.mp (of_decide_eq_true (Bool.and_eq_true_iff.mp h).2)
  unfold hexValue? at h
  split at h
  · next hdigit => exact Nat.lt_of_le_of_lt (hrange _ _ hdigit) (by decide)
  · split at h
    · next hlower => exact Nat.lt_of_le_of_lt (hrange _ _ hlower) (by decide)
    · split at h
      · next hupper => exact Nat.lt_of_le_of_lt (hrange _ _ hupper) (by decide)
      · cases h

theorem hexValue?_eq_some_iff {c : Char} {n : Nat} : hexValue? c = some n ↔ IsHexDigit c n := by
  constructor
  · intro h
    have hascii : ∀ k < 128, ∀ n ∈ hexValue? (Char.ofNat k),
        n < 16 ∧ (Char.ofNat k = hexDigit n ∨ Char.ofNat k = (hexDigit n).toUpper) := by decide
    have hchar := hascii c.toNat (toNat_of_hexValue? h) n
    rw [Char.ofNat_toNat] at hchar
    exact hchar h
  · rintro ⟨hn, rfl | rfl⟩
    · exact hexValue?_hexDigit n hn
    · have hupper : ∀ n < 16, hexValue? (hexDigit n).toUpper = some n := by decide
      exact hupper n hn

theorem IsHexDigit.utf8Size {c : Char} {n : Nat} (h : IsHexDigit c n) : c.utf8Size = 1 := by
  have hsize : ∀ n < 16, (hexDigit n).utf8Size = 1 ∧ (hexDigit n).toUpper.utf8Size = 1 := by
    decide
  obtain ⟨hn, rfl | rfl⟩ := h
  · exact (hsize n hn).1
  · exact (hsize n hn).2

theorem IsHexDigit.ne_plus {c : Char} {n : Nat} (h : IsHexDigit c n) : c ≠ '+' := by
  have hplus : ∀ n < 16, hexDigit n ≠ '+' ∧ (hexDigit n).toUpper ≠ '+' := by decide
  obtain ⟨hn, rfl | rfl⟩ := h
  · exact (hplus n hn).1
  · exact (hplus n hn).2

theorem hexPair?_plus (b : Char) : hexPair? '+' b = (hexValue? b).map UInt8.ofNat := by
  unfold hexPair?
  cases hexValue? b <;> rfl

theorem hexPair?_of_ne {a : Char} (h : a ≠ '+') (b : Char) :
    hexPair? a b = (hexValue? b).bind fun low =>
      (hexValue? a).map fun high => UInt8.ofNat (16 * high + low) := by
  unfold hexPair?
  cases hexValue? b with
  | none => rfl
  | some low =>
    show (if a = '+' then _ else _) = _
    rw [if_neg h]
    cases hexValue? a <;> rfl

/-- Pairs of digits are read as the grammar has them, with liberties. -/
theorem hexPairs?_eq_some_iff {cs : List Char} {bs : List UInt8} :
    hexPairs? cs = some bs ↔ SpellsBytes true cs bs := by
  constructor
  · intro h
    fun_induction hexPairs? cs generalizing bs with
    | case1 =>
      cases h
      exact .nil
    | case2 a b rest ih =>
      obtain ⟨byte, hpair, h⟩ := Option.bind_eq_some_iff.mp h
      obtain ⟨bytes, hbytes, h⟩ := Option.bind_eq_some_iff.mp h
      cases h
      by_cases hplus : a = '+'
      · subst hplus
        rw [hexPair?_plus] at hpair
        obtain ⟨low, hlow, rfl⟩ := Option.map_eq_some_iff.mp hpair
        exact .plus rfl (hexValue?_eq_some_iff.mp hlow) (ih hbytes)
      · rw [hexPair?_of_ne hplus] at hpair
        obtain ⟨low, hlow, hpair⟩ := Option.bind_eq_some_iff.mp hpair
        obtain ⟨high, hhigh, rfl⟩ := Option.map_eq_some_iff.mp hpair
        exact .pair (hexValue?_eq_some_iff.mp hhigh) (hexValue?_eq_some_iff.mp hlow) (ih hbytes)
    | case3 => cases h
  · intro h
    induction h with
    | nil => rfl
    | pair hhigh hlow _ ih =>
      rw [hexPairs?, hexPair?_of_ne hhigh.ne_plus, hexValue?_eq_some_iff.mpr hlow,
        hexValue?_eq_some_iff.mpr hhigh, ih]
      rfl
    | plus _ hlow _ ih =>
      rw [hexPairs?, hexPair?_plus, hexValue?_eq_some_iff.mpr hlow, ih]
      rfl

/-- Digits come in pairs, and take one byte each. -/
theorem SpellsBytes.even {liberal : Bool} {cs : List Char} {bs : List UInt8}
    (h : SpellsBytes liberal cs bs) : Token.width cs % 2 = 0 := by
  induction h with
  | nil => rfl
  | pair hhigh hlow _ ih =>
    rw [Token.width, Token.width, hhigh.utf8Size, hlow.utf8Size]
    omega
  | plus _ hlow _ ih =>
    have hone : '+'.utf8Size = 1 := by decide
    rw [Token.width, Token.width, hone, hlow.utf8Size]
    omega

theorem parseHex_eq_ok_iff {token : String} {cs : List Char} {bytes : Array UInt8} :
    parseHex token cs = .ok bytes ↔ SpellsBytes true cs bytes.toList := by
  unfold parseHex
  constructor
  · intro h
    split at h
    · cases h
    · split at h
      · next bs hpairs =>
        cases h
        exact hexPairs?_eq_some_iff.mp hpairs
      · cases h
  · intro h
    -- the reader counts bytes, the grammar characters, of which digits take one byte each
    have heven : ¬(String.ofList cs).utf8ByteSize % 2 ≠ 0 := by
      rw [← Token.width_toList, String.toList_ofList]
      exact fun hodd => hodd h.even
    rw [if_neg heven, hexPairs?_eq_some_iff.mpr h]

theorem parseDigits?_eq_some_iff {cs : List Char} {n : Nat} :
    parseDigits? cs = some n ↔ IsDecimal cs ∧ decimalValue cs = n := by
  unfold parseDigits? IsDecimal
  constructor
  · intro h
    split at h
    · next hdigits =>
      obtain ⟨hne, hall⟩ := Bool.and_eq_true_iff.mp hdigits
      refine ⟨⟨?_, List.all_eq_true.mp hall⟩, Option.some.inj h⟩
      rintro rfl
      cases hne
    · cases h
  · rintro ⟨⟨hne, hall⟩, rfl⟩
    rw [List.isEmpty_eq_false_iff.mpr hne, List.all_eq_true.mpr hall]
    rfl

/-- Digits do not begin with a sign. -/
theorem IsDecimal.head {c : Char} {cs : List Char} (h : IsDecimal (c :: cs)) :
    c ≠ '+' ∧ c ≠ '-' := by
  have hdigit := h.2 c List.mem_cons_self
  constructor
  · rintro rfl
    revert hdigit
    decide
  · rintro rfl
    revert hdigit
    decide

theorem parseBounded?_eq_some_iff {bound n : Nat} {cs : List Char} :
    parseBounded? bound cs = some n ↔
      ∃ digits, (cs = digits ∨ cs = '+' :: digits) ∧ IsDecimal digits ∧
        decimalValue digits = n ∧ n < bound := by
  unfold parseBounded?
  constructor
  · intro h
    obtain ⟨m, hdigits, h⟩ := Option.bind_eq_some_iff.mp h
    split at h
    · next hbound =>
      cases h
      split at hdigits
      · next rest =>
        obtain ⟨hdecimal, hvalue⟩ := parseDigits?_eq_some_iff.mp hdigits
        exact ⟨rest, .inr rfl, hdecimal, hvalue, hbound⟩
      · obtain ⟨hdecimal, hvalue⟩ := parseDigits?_eq_some_iff.mp hdigits
        exact ⟨cs, .inl rfl, hdecimal, hvalue, hbound⟩
    · cases h
  · rintro ⟨digits, hsign, hdecimal, hvalue, hbound⟩
    have hread := parseDigits?_eq_some_iff.mpr ⟨hdecimal, hvalue⟩
    rcases hsign with rfl | rfl
    · split
      · exact absurd rfl hdecimal.head.1
      · rw [hread]
        exact if_pos hbound
    · show (parseDigits? digits >>= fun k => if k < bound then some k else none) = some n
      rw [hread]
      exact if_pos hbound

/-- A number of 32 bits is read as the grammar has it, with liberties. -/
theorem parseWord32_eq_ok_iff {token : String} {cs : List Char} {n : UInt32} :
    parseWord32 token cs = .ok n ↔ SpellsWord true cs n := by
  unfold parseWord32
  constructor
  · intro h
    split at h
    · next m hread =>
      obtain ⟨digits, hsign, hdecimal, hvalue, hbound⟩ := parseBounded?_eq_some_iff.mp hread
      cases h
      cases hvalue
      rcases hsign with rfl | rfl
      · exact .digits hdecimal hbound
      · exact .plus rfl hdecimal hbound
    · cases h
  · intro h
    cases h with
    | digits hdecimal hbound =>
      rw [parseBounded?_eq_some_iff.mpr ⟨_, .inl rfl, hdecimal, rfl, hbound⟩]
    | plus _ hdecimal hbound =>
      rw [parseBounded?_eq_some_iff.mpr ⟨_, .inr rfl, hdecimal, rfl, hbound⟩]

/-- A number of any size is read as the grammar has it. -/
theorem parseInteger?_eq_some_iff {token : String} {n : Int} :
    parseInteger? token = some n ↔ SpellsInteger token.toList n := by
  unfold parseInteger?
  constructor
  · intro h
    split at h
    all_goals
      obtain ⟨k, hread, rfl⟩ := Option.map_eq_some_iff.mp h
      obtain ⟨m, hdigits, hcast⟩ := Option.bind_eq_some_iff.mp hread
      obtain ⟨hdecimal, rfl⟩ := parseDigits?_eq_some_iff.mp hdigits
      cases hcast
    · next heq =>
      rw [heq]
      exact .minus hdecimal
    · next heq =>
      rw [heq]
      exact .plus hdecimal
    · exact .digits hdecimal
  · intro h
    generalize token.toList = cs at h
    cases h with
    | digits hdecimal =>
      split
      · exact absurd rfl hdecimal.head.2
      · exact absurd rfl hdecimal.head.1
      · rw [parseDigits?_eq_some_iff.mpr ⟨hdecimal, rfl⟩]
        rfl
    | @plus cs hdecimal =>
      show (parseDigits? cs >>= fun k => some (k : Int)).map _ = _
      rw [parseDigits?_eq_some_iff.mpr ⟨hdecimal, rfl⟩]
      rfl
    | @minus cs hdecimal =>
      show (parseDigits? cs >>= fun k => some (k : Int)).map _ = _
      rw [parseDigits?_eq_some_iff.mpr ⟨hdecimal, rfl⟩]
      rfl

/-! ## Section 3: Quoted texts -/

/-- Escapes are read as the grammar has them, with liberties. -/
theorem unescape?_eq_some_iff {cs ds : List Char} :
    unescape? cs = some ds ↔ SpellsText true cs ds := by
  constructor
  · intro h
    fun_induction unescape? cs generalizing ds with
    | case1 =>
      cases h
      exact .nil
    | case2 rest ih =>
      obtain ⟨es, hrest, rfl⟩ := Option.map_eq_some_iff.mp h
      exact .escaped (by decide) (ih hrest)
    | case3 rest ih =>
      obtain ⟨es, hrest, rfl⟩ := Option.map_eq_some_iff.mp h
      exact .escaped (by decide) (ih hrest)
    | case4 rest ih =>
      obtain ⟨es, hrest, rfl⟩ := Option.map_eq_some_iff.mp h
      exact .escaped (by decide) (ih hrest)
    | case5 rest ih =>
      obtain ⟨es, hrest, rfl⟩ := Option.map_eq_some_iff.mp h
      exact .escaped (by decide) (ih hrest)
    | case6 => cases h
    | case7 c rest _ _ _ _ hback ih =>
      obtain ⟨es, hrest, rfl⟩ := Option.map_eq_some_iff.mp h
      exact .plain hback (.inl rfl) (ih hrest)
  · intro h
    induction h with
    | nil => rfl
    | plain hback _ _ ih =>
      rw [unescape?_cons_of_ne hback, ih]
      rfl
    | @escaped c d cs ds hescape _ ih =>
      have hone : ∀ escape ∈ escapes, unescape? ('\\' :: escape.1 :: cs) =
          (unescape? cs).map (escape.2 :: ·) := by
        simp only [escapes, List.forall_mem_cons]
        exact ⟨rfl, rfl, rfl, rfl, nofun⟩
      rw [hone (c, d) hescape, ih]
      rfl

theorem quotedBody?_eq_some_iff {cs body : List Char} :
    quotedBody? cs = some body ↔ cs = '"' :: (body ++ ['"']) := by
  constructor
  · intro h
    unfold quotedBody? at h
    split at h
    · next rest =>
      split at h
      · next hlast =>
        cases h
        rw [List.dropLast_append_getLast? '"' hlast]
      · cases h
    · cases h
  · rintro rfl
    show (if (body ++ ['"']).getLast? = some '"' then some (body ++ ['"']).dropLast else none) = _
    rw [List.getLast?_concat, if_pos rfl, List.dropLast_concat]

/-! ## Section 4: Tokens -/

/-- A sign or a digit begins a number, and digits alone follow. -/
theorem SpellsInteger.cons {c : Char} {cs : List Char} {n : Int} (h : SpellsInteger (c :: cs) n) :
    (c.isDigit = true ∨ c = '+' ∨ c = '-') ∧ ∀ d ∈ cs, d.isDigit = true := by
  cases h with
  | digits hdigits =>
    exact ⟨.inl (hdigits.2 c List.mem_cons_self),
      fun d hd => hdigits.2 d (List.mem_cons_of_mem c hd)⟩
  | plus hdigits => exact ⟨.inr (.inl rfl), hdigits.2⟩
  | minus hdigits => exact ⟨.inr (.inr rfl), hdigits.2⟩

theorem SpellsInteger.not_nil {n : Int} : ¬SpellsInteger [] n := by
  intro h
  cases h with
  | digits hdigits => exact hdigits.1 rfl

/-- A token without quotes that is read is spelled, with liberties. -/
theorem spells_of_parseBare {token : String} {l : Literal} (h : parseBare token = .ok l) :
    Spells true token.toList l := by
  unfold parseBare at h
  split at h
  · next digits heq =>
    obtain ⟨bytes, hbytes, rfl⟩ := Except.map_eq_ok.mp h
    rw [heq]
    exact .bytes (parseHex_eq_ok_iff.mp hbytes)
  · next digits heq =>
    obtain ⟨n, hword, rfl⟩ := Except.map_eq_ok.mp h
    rw [heq]
    exact .timestamp (parseWord32_eq_ok_iff.mp hword)
  · next digits heq =>
    obtain ⟨n, hword, rfl⟩ := Except.map_eq_ok.mp h
    rw [heq]
    exact .enum (parseWord32_eq_ok_iff.mp hword)
  · split at h
    · next n hinteger =>
      cases h
      exact .number (parseInteger?_eq_some_iff.mp hinteger)
    · cases h

/-- A token that is read is spelled, with liberties. -/
theorem spells_of_parseLiteral {token : String} {l : Literal} (h : parseLiteral token = .ok l) :
    Spells true token.toList l := by
  unfold parseLiteral at h
  split at h
  · next text hquoted =>
    obtain ⟨body, hbody, htext⟩ := Option.map_eq_some_iff.mp hquoted
    obtain ⟨s, hs, rfl⟩ := Except.map_eq_ok.mp h
    rw [quotedBody?_eq_some_iff.mp hbody]
    rw [← htext] at hs
    split at hs
    · next cs hcs =>
      cases hs
      exact .string (unescape?_eq_some_iff.mp hcs)
    · cases hs
  · split at h
    · next hword =>
      cases h
      rw [hword]
      exact .noneWord
    · split at h
      · next hword =>
        cases h
        rw [hword]
        exact .trueWord
      · split at h
        · next hword =>
          cases h
          rw [hword]
          exact .falseWord
        · exact spells_of_parseBare h

/-- A token that is spelled with liberties is read. -/
theorem parseLiteral_of_spells {token : String} {l : Literal} (h : Spells true token.toList l) :
    parseLiteral token = .ok l := by
  generalize htext : token.toList = text at h
  have htoken : token = String.ofList text := by
    rw [← htext, String.ofList_toList]
  cases h with
  | noneWord =>
    subst htoken
    rfl
  | trueWord =>
    subst htoken
    rfl
  | falseWord =>
    subst htoken
    rfl
  | bytes h =>
    rw [parseLiteral_eq_parseBare (by rw [htext]; simp) (by rw [htext]; simp)]
    unfold parseBare
    rw [htext]
    exact Except.map_eq_ok.mpr ⟨_, parseHex_eq_ok_iff.mpr h, rfl⟩
  | timestamp h =>
    rw [parseLiteral_eq_parseBare (by rw [htext]; simp) (by rw [htext]; simp)]
    unfold parseBare
    rw [htext]
    exact Except.map_eq_ok.mpr ⟨_, parseWord32_eq_ok_iff.mpr h, rfl⟩
  | enum h =>
    rw [parseLiteral_eq_parseBare (by rw [htext]; simp) (by rw [htext]; simp)]
    unfold parseBare
    rw [htext]
    exact Except.map_eq_ok.mpr ⟨_, parseWord32_eq_ok_iff.mpr h, rfl⟩
  | number h =>
    cases text with
    | nil => exact absurd h SpellsInteger.not_nil
    | cons c rest =>
      obtain ⟨hfirst, hrest⟩ := h.cons
      rw [← htext] at h
      rw [parseLiteral_eq_parseInteger? htext hfirst hrest, parseInteger?_eq_some_iff.mpr h]
  | string h =>
    subst htoken
    exact parseLiteral_of_body (unescape?_eq_some_iff.mpr h)

/-- An error about a mark's digits names the token. -/
theorem token_of_parseHex {token : String} {cs : List Char} {e : LiteralError}
    (h : parseHex token cs = .error e) : e.token = token := by
  unfold parseHex at h
  split at h
  · cases h
    rfl
  · split at h
    · cases h
    · cases h
      rfl

theorem token_of_parseWord32 {token : String} {cs : List Char} {e : LiteralError}
    (h : parseWord32 token cs = .error e) : e.token = token := by
  unfold parseWord32 at h
  split at h
  · cases h
  · cases h
    rfl

theorem token_of_parseBare {token : String} {e : LiteralError} (h : parseBare token = .error e) :
    e.token = token := by
  unfold parseBare at h
  split at h
  · exact token_of_parseHex (Except.map_eq_error.mp h)
  · exact token_of_parseWord32 (Except.map_eq_error.mp h)
  · exact token_of_parseWord32 (Except.map_eq_error.mp h)
  · split at h
    · cases h
    · cases h
      rfl

/-- An error about a token names it. -/
theorem token_of_parseLiteral {token : String} {e : LiteralError}
    (h : parseLiteral token = .error e) : e.token = token := by
  unfold parseLiteral at h
  split at h
  · next text hquoted =>
    obtain ⟨body, -, htext⟩ := Option.map_eq_some_iff.mp hquoted
    have htext' := Except.map_eq_error.mp h
    rw [← htext] at htext'
    split at htext'
    · cases htext'
    · cases htext'
      rfl
  · split at h
    · cases h
    · split at h
      · cases h
      · split at h
        · cases h
        · exact token_of_parseBare h

/-! ## Section 5: Liberties -/

/-- Does the token take one of the liberties that the documented grammar does not grant? -/
inductive TakesLiberty : List Char → Prop where
  | hexPlus {cs : List Char} (hplus : '+' ∈ cs) : TakesLiberty ('0' :: 'x' :: cs)
  | timestampPlus (cs : List Char) : TakesLiberty ('t' :: 's' :: ':' :: '+' :: cs)
  | enumPlus (cs : List Char) : TakesLiberty ('e' :: 'n' :: 'u' :: 'm' :: ':' :: '+' :: cs)
  | openQuote {cs : List Char} (hopen : ¬Token.Enclosed cs) : TakesLiberty ('"' :: (cs ++ ['"']))

theorem SpellsBytes.documented_iff {cs : List Char} {bs : List UInt8} :
    SpellsBytes false cs bs ↔ SpellsBytes true cs bs ∧ '+' ∉ cs := by
  constructor
  · intro h
    induction h with
    | nil => exact ⟨.nil, List.not_mem_nil⟩
    | pair hhigh hlow _ ih =>
      refine ⟨.pair hhigh hlow ih.1, ?_⟩
      rw [List.mem_cons, List.mem_cons]
      rintro (heq | heq | hmem)
      · exact hhigh.ne_plus heq.symm
      · exact hlow.ne_plus heq.symm
      · exact ih.2 hmem
    | plus hliberal => cases hliberal
  · rintro ⟨h, hplus⟩
    induction h with
    | nil => exact .nil
    | pair hhigh hlow _ ih =>
      exact .pair hhigh hlow
        (ih fun hmem => hplus (List.mem_cons_of_mem _ (List.mem_cons_of_mem _ hmem)))
    | plus => exact absurd List.mem_cons_self hplus

theorem SpellsWord.documented_iff {cs : List Char} {n : UInt32} :
    SpellsWord false cs n ↔ SpellsWord true cs n ∧ cs.head? ≠ some '+' := by
  constructor
  · intro h
    cases h with
    | digits hdigits hbound =>
      refine ⟨.digits hdigits hbound, ?_⟩
      cases cs with
      | nil => nofun
      | cons c cs =>
        intro heq
        exact hdigits.head.1 (Option.some.inj heq)
    | plus hliberal => cases hliberal
  · rintro ⟨h, hplus⟩
    cases h with
    | digits hdigits hbound => exact .digits hdigits hbound
    | plus => exact absurd rfl hplus

theorem SpellsText.documented_iff {cs ds : List Char} :
    SpellsText false cs ds ↔ SpellsText true cs ds ∧ Token.Enclosed cs := by
  constructor
  · intro h
    induction h with
    | nil => exact ⟨.nil, .nil⟩
    | plain hback hquote _ ih =>
      have hne := hquote.resolve_left Bool.false_ne_true
      exact ⟨.plain hback (.inl rfl) ih.1, .plain hback hne ih.2⟩
    | escaped hescape _ ih => exact ⟨.escaped hescape ih.1, .hidden _ ih.2⟩
  · rintro ⟨h, henclosed⟩
    induction h with
    | nil => exact .nil
    | plain hback _ _ ih =>
      cases henclosed with
      | plain _ hquote hrest => exact .plain hback (.inr hquote) (ih hrest)
      | hidden => exact absurd rfl hback
    | escaped hescape _ ih =>
      cases henclosed with
      | plain hback => exact absurd rfl hback
      | hidden _ hrest => exact .escaped hescape (ih hrest)

/-- A number takes no liberty. -/
theorem SpellsInteger.not_takesLiberty {cs : List Char} {n : Int} (h : SpellsInteger cs n) :
    ¬TakesLiberty cs := by
  intro hliberty
  cases hliberty with
  | hexPlus => exact absurd (h.cons.2 'x' List.mem_cons_self) (by decide)
  | timestampPlus => exact absurd h.cons.1 (by decide)
  | enumPlus => exact absurd h.cons.1 (by decide)
  | openQuote => exact absurd h.cons.1 (by decide)

/-- A literal is documented if and only if it is spelled without liberties. -/
theorem Spells.documented_iff {cs : List Char} {l : Literal} :
    Spells false cs l ↔ Spells true cs l ∧ ¬TakesLiberty cs := by
  constructor
  · intro h
    cases h with
    | noneWord => exact ⟨.noneWord, nofun⟩
    | trueWord => exact ⟨.trueWord, nofun⟩
    | falseWord => exact ⟨.falseWord, nofun⟩
    | bytes h =>
      obtain ⟨hbytes, hplus⟩ := SpellsBytes.documented_iff.mp h
      refine ⟨.bytes hbytes, ?_⟩
      intro hliberty
      cases hliberty with
      | hexPlus hmem => exact hplus hmem
    | timestamp h =>
      obtain ⟨hword, hplus⟩ := SpellsWord.documented_iff.mp h
      refine ⟨.timestamp hword, ?_⟩
      intro hliberty
      cases hliberty with
      | timestampPlus => exact hplus rfl
    | enum h =>
      obtain ⟨hword, hplus⟩ := SpellsWord.documented_iff.mp h
      refine ⟨.enum hword, ?_⟩
      intro hliberty
      cases hliberty with
      | enumPlus => exact hplus rfl
    | number h => exact ⟨.number h, h.not_takesLiberty⟩
    | string h =>
      obtain ⟨htext, henclosed⟩ := SpellsText.documented_iff.mp h
      refine ⟨.string htext, ?_⟩
      intro hliberty
      generalize heq : '"' :: (_ ++ ['"']) = text at hliberty
      cases hliberty with
      | hexPlus => cases heq
      | timestampPlus => cases heq
      | enumPlus => cases heq
      | openQuote hopen =>
        obtain rfl := List.append_cancel_right (List.cons.inj heq).2
        exact hopen henclosed
  · rintro ⟨h, hliberty⟩
    cases h with
    | noneWord => exact .noneWord
    | trueWord => exact .trueWord
    | falseWord => exact .falseWord
    | bytes h =>
      exact .bytes (SpellsBytes.documented_iff.mpr ⟨h, fun hplus => hliberty (.hexPlus hplus)⟩)
    | timestamp h =>
      refine .timestamp (SpellsWord.documented_iff.mpr ⟨h, fun hplus => hliberty ?_⟩)
      obtain ⟨rest, rfl⟩ := List.head?_eq_some_iff.mp hplus
      exact .timestampPlus rest
    | enum h =>
      refine .enum (SpellsWord.documented_iff.mpr ⟨h, fun hplus => hliberty ?_⟩)
      obtain ⟨rest, rfl⟩ := List.head?_eq_some_iff.mp hplus
      exact .enumPlus rest
    | number h => exact .number h
    | string h =>
      exact .string (SpellsText.documented_iff.mpr
        ⟨h, Classical.not_not.mp fun hopen => hliberty (.openQuote hopen)⟩)

/-- **The grammar of literals.**  A token is read as a literal if and only if it is spelled as
    this literal, with liberties.  The documented grammar spells the same, but takes none of them.
    Any other token is refused, with an error that names it. -/
theorem literals_are_read_as_spelled (token : String) :
    (∀ l, parseLiteral token = .ok l ↔ Spells true token.toList l) ∧
    (∀ l, Spells false token.toList l ↔
      parseLiteral token = .ok l ∧ ¬TakesLiberty token.toList) ∧
    ((∃ l, Spells true token.toList l) ∨
      ∃ problem, parseLiteral token = .error ⟨token, problem⟩) := by
  have hread : ∀ l, parseLiteral token = .ok l ↔ Spells true token.toList l :=
    fun l => ⟨spells_of_parseLiteral, parseLiteral_of_spells⟩
  refine ⟨hread, fun l => ?_, ?_⟩
  · rw [hread, Spells.documented_iff]
  · cases hparse : parseLiteral token with
    | ok l => exact .inl ⟨l, (hread l).mp hparse⟩
    | error e =>
      refine .inr ⟨e.problem, ?_⟩
      rw [← token_of_parseLiteral hparse]

/-- Signs and quotes that the documented grammar has no place for are passed over. -/
theorem misplaced_signs_and_quotes_are_read :
    (parseLiteral "0x+f" = .ok (.bytes #[15]) ∧ ∀ l, ¬Spells false "0x+f".toList l) ∧
    (parseLiteral "ts:+5" = .ok (.timestamp 5) ∧ ∀ l, ¬Spells false "ts:+5".toList l) ∧
    (parseLiteral "\"a\"b\"" = .ok (.string "a\"b") ∧ ∀ l, ¬Spells false "\"a\"b\"".toList l) := by
  have hopen : ¬Token.Enclosed ['a', '"', 'b'] := by
    intro h
    cases h with
    | plain _ _ hrest =>
      cases hrest with
      | plain _ hquote => exact hquote rfl
  refine ⟨⟨rfl, fun l h => ?_⟩, ⟨rfl, fun l h => ?_⟩, ⟨rfl, fun l h => ?_⟩⟩
  · exact (Spells.documented_iff.mp h).2 (.hexPlus List.mem_cons_self)
  · exact (Spells.documented_iff.mp h).2 (.timestampPlus ['5'])
  · exact (Spells.documented_iff.mp h).2 (.openQuote hopen)

end Assembly

end ContractVM
