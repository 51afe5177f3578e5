import ContractVM.Heap.Display
import ContractVM.Proofs.Assembly.Labels

/-! # Printed scalars

    Scalars are shown in the notation of their literals, so what is shown can be read again:

    * **Texts** of printable ASCII, tabs and line feeds stay inside their quotes, and what
      was escaped is unescaped.
    * **Digits**, decimal and hexadecimal, are read as the number or the bytes that they show,
      of any size.
    * **Literals**: the notation of a scalar is read as this scalar.
    * **Tokens**: the notation of a scalar is one token, and holds no line break.
    * **Sources**: a line that loads the scalar is assembled, unless its code is too large. -/

namespace ContractVM

/-! ## Section 1: Scalars with a notation -/

/-- May this character stand in a text whose quoted form is read back? -/
def Text.isQuotable (c : Char) : Bool :=
  isPrintableAscii c || c == '\t' || c == '\n'

/-- Is this a scalar with a notation that is read back: no text with other characters than
    printable ASCII, tabs and line feeds? -/
def Value.HasNotation : Value → Prop
  | .string s => ∀ c ∈ s.toList, Text.isQuotable c = true
  | .struct _ | .object _ => False
  | _ => True

/-- A scalar is the value of a literal. -/
theorem Value.HasNotation.exists_literal {v : Value} (h : v.HasNotation) :
    ∃ l : Literal, l.value = v := by
  cases v with
  | none => exact ⟨.none, rfl⟩
  | bool b => exact ⟨.bool b, rfl⟩
  | number n => exact ⟨.number n, rfl⟩
  | string s => exact ⟨.string s, rfl⟩
  | bytes bs => exact ⟨.bytes bs, rfl⟩
  | timestamp t => exact ⟨.timestamp t, rfl⟩
  | enum e => exact ⟨.enum e, rfl⟩
  | struct _ => cases h
  | object _ => cases h

namespace Assembly

open Text

/-! ## Section 2: Escapes -/

/-- How a quotable character is shown inside quotes. -/
inductive Quotes : Char → List Char → Prop where
  | plain {c : Char} (hascii : isPrintableAscii c = true) (hback : c ≠ '\\') (hquote : c ≠ '"') :
    Quotes c [c]
  | quote : Quotes '"' ['\\', '"']
  | backslash : Quotes '\\' ['\\', '\\']
  | lineFeed : Quotes '\n' ['\\', 'n']
  | tab : Quotes '\t' ['\\', 't']

theorem quotes_of_isQuotable {c : Char} (h : isQuotable c = true) : Quotes c (quotedChar c) := by
  by_cases hquote : c = '"'
  · subst hquote
    exact .quote
  by_cases hback : c = '\\'
  · subst hback
    exact .backslash
  by_cases htab : c = '\t'
  · subst htab
    exact .tab
  by_cases hfeed : c = '\n'
  · subst hfeed
    exact .lineFeed
  -- no other character needs an escape
  have hascii : isPrintableAscii c = true := by
    simpa [isQuotable, htab, hfeed] using h
  rw [quotedChar_of_ascii hascii hquote hback]
  exact .plain hascii hback hquote

/-- A character is read as it was shown. -/
theorem Quotes.unescape?_append {c : Char} {shown : List Char} (h : Quotes c shown)
    (rest : List Char) : unescape? (shown ++ rest) = (unescape? rest).map (c :: ·) := by
  cases h with
  | plain _ hback _ => exact unescape?_cons_of_ne hback rest
  | quote => rfl
  | backslash => rfl
  | lineFeed => rfl
  | tab => rfl

/-- What shows a character neither closes the quote around it nor breaks the line. -/
theorem Quotes.enclosed_append {c : Char} {shown : List Char} (h : Quotes c shown)
    {rest : List Char} (hrest : Token.Enclosed rest) : Token.Enclosed (shown ++ rest) := by
  cases h with
  | plain _ hback hquote => exact .plain hback hquote hrest
  | quote => exact .hidden _ hrest
  | backslash => exact .hidden _ hrest
  | lineFeed => exact .hidden _ hrest
  | tab => exact .hidden _ hrest

theorem Quotes.noBreak {c : Char} {shown : List Char} (h : Quotes c shown) : '\n' ∉ shown := by
  cases h with
  | plain hascii _ _ =>
    -- a line feed is not printable, so it never stands for itself
    intro hmem
    rw [← List.mem_singleton.mp hmem] at hascii
    revert hascii
    decide
  | quote => decide
  | backslash => decide
  | lineFeed => decide
  | tab => decide

section Quoted

variable {cs : List Char} (h : ∀ c ∈ cs, isQuotable c = true)

include h

/-- Quotable characters are read as they were shown. -/
theorem unescape?_quoted : unescape? (cs.flatMap quotedChar) = some cs := by
  induction cs with
  | nil => rfl
  | cons c cs ih =>
    have hfirst := quotes_of_isQuotable (h c List.mem_cons_self)
    have hrest := ih fun d hd => h d (List.mem_cons_of_mem c hd)
    rw [List.flatMap_cons, hfirst.unescape?_append, hrest]
    rfl

theorem enclosed_quoted : Token.Enclosed (cs.flatMap quotedChar) := by
  induction cs with
  | nil => exact .nil
  | cons c cs ih =>
    have hfirst := quotes_of_isQuotable (h c List.mem_cons_self)
    rw [List.flatMap_cons]
    exact hfirst.enclosed_append (ih fun d hd => h d (List.mem_cons_of_mem c hd))

theorem noBreak_quoted : '\n' ∉ cs.flatMap quotedChar := by
  intro hmem
  obtain ⟨c, hc, hbreak⟩ := List.mem_flatMap.mp hmem
  exact (quotes_of_isQuotable (h c hc)).noBreak hbreak

end Quoted

/-! ## Section 3: Digits -/

theorem isDigit_of_mem_toDigits {n : Nat} {c : Char} (h : c ∈ Nat.toDigits 10 n) :
    c.isDigit = true :=
  Nat.isDigit_of_mem_toDigits (by decide) (by decide) h

/-- The digits of a number are read as this number. -/
theorem parseDigits?_toDigits (n : Nat) : parseDigits? (Nat.toDigits 10 n) = some n := by
  have hne : (Nat.toDigits 10 n).isEmpty = false :=
    List.isEmpty_eq_false_iff.mpr Nat.toDigits_ne_nil
  have hall : (Nat.toDigits 10 n).all Char.isDigit = true :=
    List.all_eq_true.mpr fun c hc => isDigit_of_mem_toDigits hc
  unfold parseDigits?
  rw [hne, hall, decimalValue_toDigits]
  rfl

/-- The digits of a number have a first one, which is no sign. -/
theorem exists_toDigits_eq_cons (n : Nat) :
    ∃ c rest, Nat.toDigits 10 n = c :: rest ∧ c.isDigit = true ∧ c ≠ '-' ∧ c ≠ '+' := by
  obtain ⟨c, rest, heq⟩ := List.exists_cons_of_ne_nil (Nat.toDigits_ne_nil (n := n) (b := 10))
  have hdigit : c.isDigit = true := by
    apply isDigit_of_mem_toDigits (n := n)
    rw [heq]
    exact List.mem_cons_self
  refine ⟨c, rest, heq, hdigit, ?_, ?_⟩
  · rintro rfl
    revert hdigit
    decide
  · rintro rfl
    revert hdigit
    decide

theorem toList_toString_negSucc (m : Nat) :
    (toString (Int.negSucc m)).toList = '-' :: Nat.toDigits 10 (m + 1) := by
  show ("-" ++ Nat.repr (m + 1)).toList = _
  rw [String.toList_append, Nat.toList_repr]
  rfl

/-- A number of any size and sign is read back. -/
theorem parseInteger?_toString (n : Int) : parseInteger? (toString n) = some n := by
  cases n with
  | ofNat m =>
    have htext : (toString (Int.ofNat m)).toList = Nat.toDigits 10 m := Nat.toList_repr
    have hdigits := parseDigits?_toDigits m
    obtain ⟨c, rest, heq, -, hminus, hplus⟩ := exists_toDigits_eq_cons m
    rw [heq] at htext hdigits
    unfold parseInteger?
    rw [htext]
    -- the first character is a digit, so the cases of the two signs are void
    split
    · next h =>
      cases h
      exact absurd rfl hminus
    · next h =>
      cases h
      exact absurd rfl hplus
    · rw [hdigits]
      rfl
  | negSucc m =>
    unfold parseInteger?
    rw [toList_toString_negSucc]
    show (parseDigits? (Nat.toDigits 10 (m + 1))).map (fun k => -(k : Int)) = _
    rw [parseDigits?_toDigits]
    rfl

/-- A number below the bound is read back. -/
theorem parseBounded?_toDigits {bound n : Nat} (h : n < bound) :
    parseBounded? bound (Nat.toDigits 10 n) = some n := by
  have hdigits := parseDigits?_toDigits n
  obtain ⟨c, rest, heq, -, -, hplus⟩ := exists_toDigits_eq_cons n
  rw [heq] at hdigits ⊢
  unfold parseBounded?
  split
  · next heq' =>
    cases heq'
    exact absurd rfl hplus
  · rw [hdigits]
    show (if n < bound then some n else none) = some n
    rw [if_pos h]

/-- Bytes are read back from their digits. -/
theorem hexPairs?_flatMap (bs : List UInt8) : hexPairs? (bs.flatMap hexByte) = some bs := by
  induction bs with
  | nil => rfl
  | cons b bs ih =>
    show (do
      let byte ← hexPair? (hexDigit (b.toNat / 16)) (hexDigit (b.toNat % 16))
      let bytes ← hexPairs? (bs.flatMap hexByte)
      return byte :: bytes) = some (b :: bs)
    rw [hexPair?_hexDigit, ih]
    rfl

theorem hexDigit_isNameChar : ∀ n < 16, isNameChar (hexDigit n) = true := by decide

theorem isNameChar_of_mem_hexBytes {bs : List UInt8} {c : Char} (h : c ∈ bs.flatMap hexByte) :
    isNameChar c = true := by
  obtain ⟨b, -, hc⟩ := List.mem_flatMap.mp h
  have hb := b.toNat_lt
  rcases List.mem_cons.mp hc with rfl | hc
  · exact hexDigit_isNameChar _ (by omega)
  · rw [List.mem_singleton.mp hc]
    exact hexDigit_isNameChar _ (by omega)

/-- Each byte takes two digits. -/
theorem utf8ByteSize_hexBytes (bs : List UInt8) : (hexBytes bs).utf8ByteSize = 2 * bs.length := by
  have hone : ∀ n < 16, (hexDigit n).utf8Size = 1 := by decide
  induction bs with
  | nil => rfl
  | cons b bs ih =>
    have hb := b.toNat_lt
    have hhigh := hone (b.toNat / 16) (by omega)
    have hlow := hone (b.toNat % 16) (by omega)
    -- the length is that of the text in bytes, of which each digit takes one
    rw [← Token.width_toList] at ih ⊢
    unfold hexBytes at ih ⊢
    rw [String.toList_ofList] at ih ⊢
    show (hexDigit (b.toNat / 16)).utf8Size + ((hexDigit (b.toNat % 16)).utf8Size +
      Token.width (bs.flatMap hexByte)) = 2 * (bs.length + 1)
    omega

/-! ## Section 4: Literals -/

/-- A token that begins neither with a quote nor as one of the words does is a number, bytes,
    or a marked number. -/
theorem parseLiteral_eq_parseBare {token : String} (hquote : token.toList.head? ≠ some '"')
    (hwords : token.toList.take 2 ∉ [['n', 'o'], ['t', 'r'], ['f', 'a']]) :
    parseLiteral token = parseBare token := by
  have hbody : parseQuoted token = none := by
    unfold parseQuoted quotedBody?
    split
    · next heq =>
      rw [heq] at hquote
      exact absurd rfl hquote
    · rfl
  -- the words begin with the excluded pairs
  have hnone : token ≠ "none" := by
    rintro rfl
    exact hwords (by decide)
  have htrue : token ≠ "true" := by
    rintro rfl
    exact hwords (by decide)
  have hfalse : token ≠ "false" := by
    rintro rfl
    exact hwords (by decide)
  unfold parseLiteral
  rw [hbody]
  dsimp only
  rw [if_neg hnone, if_neg htrue, if_neg hfalse]

/-- A token of digits, perhaps behind a sign, is nothing but a number. -/
theorem parseLiteral_eq_parseInteger? {token : String} {c : Char} {rest : List Char}
    (htext : token.toList = c :: rest) (hfirst : c.isDigit = true ∨ c = '+' ∨ c = '-')
    (hdigits : ∀ d ∈ rest, d.isDigit = true) :
    parseLiteral token =
      match parseInteger? token with
      | some n => .ok (.number n)
      | none => .error ⟨token, .unrecognized⟩ := by
  have hne : ∀ d : Char, d.isDigit = false → d ≠ '+' → d ≠ '-' → c ≠ d := by
    rintro d hd hplus hminus rfl
    rcases hfirst with hdigit | hsign | hsign
    · rw [hd] at hdigit
      cases hdigit
    · exact hplus hsign
    · exact hminus hsign
  have hbare : parseLiteral token = parseBare token := by
    apply parseLiteral_eq_parseBare
    · rw [htext]
      simp [hne '"' (by decide) (by decide) (by decide)]
    · rw [htext]
      simp [hne 'n' (by decide) (by decide) (by decide),
        hne 't' (by decide) (by decide) (by decide), hne 'f' (by decide) (by decide) (by decide)]
  rw [hbare]
  unfold parseBare
  rw [htext]
  split
  · next heq =>
    -- behind the first character there are only digits
    cases heq
    exact absurd (hdigits 'x' List.mem_cons_self) (by decide)
  · next heq =>
    cases heq
    exact absurd rfl (hne 't' (by decide) (by decide) (by decide))
  · next heq =>
    cases heq
    exact absurd rfl (hne 'e' (by decide) (by decide) (by decide))
  · rfl

/-- The digits of a number, behind a sign if it is negative. -/
theorem exists_toString_eq_cons (n : Int) :
    ∃ c rest, (toString n).toList = c :: rest ∧ (c.isDigit = true ∨ c = '-') ∧
      ∀ d ∈ rest, d.isDigit = true := by
  cases n with
  | ofNat m =>
    obtain ⟨c, rest, heq, hdigit, -, -⟩ := exists_toDigits_eq_cons m
    refine ⟨c, rest, Nat.toList_repr.trans heq, .inl hdigit, ?_⟩
    intro d hd
    apply isDigit_of_mem_toDigits (n := m)
    rw [heq]
    exact List.mem_cons_of_mem c hd
  | negSucc m =>
    exact ⟨'-', _, toList_toString_negSucc m, .inr rfl, fun d hd => isDigit_of_mem_toDigits hd⟩

/-- A number is read as this number. -/
theorem parseLiteral_number (n : Int) : parseLiteral (toString n) = .ok (.number n) := by
  obtain ⟨c, rest, htext, hfirst, hdigits⟩ := exists_toString_eq_cons n
  rw [parseLiteral_eq_parseInteger? htext (hfirst.imp_right .inr) hdigits, parseInteger?_toString]

/-- Bytes are read as these bytes, however many. -/
theorem parseLiteral_bytes (bs : Array UInt8) :
    parseLiteral ("0x" ++ hexBytes bs.toList) = .ok (.bytes bs) := by
  have htext : ("0x" ++ hexBytes bs.toList).toList = '0' :: 'x' :: bs.toList.flatMap hexByte := by
    simp [hexBytes]
  have heven : ¬(String.ofList (bs.toList.flatMap hexByte)).utf8ByteSize % 2 ≠ 0 := by
    have hsize := utf8ByteSize_hexBytes bs.toList
    unfold hexBytes at hsize
    omega
  rw [parseLiteral_eq_parseBare (by rw [htext]; simp) (by rw [htext]; simp)]
  unfold parseBare
  rw [htext]
  show (parseHex _ (bs.toList.flatMap hexByte)).map Literal.bytes = _
  unfold parseHex
  rw [if_neg heven, hexPairs?_flatMap]
  rfl

/-- A number of 32 bits is read behind its mark. -/
theorem parseWord32_toDigits (token : String) (n : UInt32) :
    parseWord32 token (Nat.toDigits 10 n.toNat) = .ok n := by
  unfold parseWord32
  rw [parseBounded?_toDigits n.toNat_lt_size]
  dsimp only
  rw [UInt32.ofNat_toNat]

theorem parseLiteral_timestamp (t : UInt32) :
    parseLiteral ("ts:" ++ toString t.toNat) = .ok (.timestamp t) := by
  have htext : ("ts:" ++ toString t.toNat).toList =
      't' :: 's' :: ':' :: Nat.toDigits 10 t.toNat := by
    simp
  rw [parseLiteral_eq_parseBare (by rw [htext]; simp) (by rw [htext]; simp)]
  unfold parseBare
  rw [htext]
  show (parseWord32 _ (Nat.toDigits 10 t.toNat)).map Literal.timestamp = _
  rw [parseWord32_toDigits]
  rfl

theorem parseLiteral_enum (e : UInt32) :
    parseLiteral ("enum:" ++ toString e.toNat) = .ok (.enum e) := by
  have htext : ("enum:" ++ toString e.toNat).toList =
      'e' :: 'n' :: 'u' :: 'm' :: ':' :: Nat.toDigits 10 e.toNat := by
    simp
  rw [parseLiteral_eq_parseBare (by rw [htext]; simp) (by rw [htext]; simp)]
  unfold parseBare
  rw [htext]
  show (parseWord32 _ (Nat.toDigits 10 e.toNat)).map Literal.enum = _
  rw [parseWord32_toDigits]
  rfl

/-- A quoted text is read as this text. -/
theorem parseLiteral_quoted {s : String} (h : ∀ c ∈ s.toList, isQuotable c = true) :
    parseLiteral (quoted s) = .ok (.string s) := by
  unfold quoted
  rw [List.cons_append, parseLiteral_of_body (unescape?_quoted h), String.ofList_toList]

variable {Ω : Type} [HostData Ω] (heap : Heap Ω)

/-- What is shown of the value of a literal is read as this literal. -/
theorem parseLiteral_display {l : Literal} (h : l.value.HasNotation) :
    parseLiteral (heap.display l.value) = .ok l := by
  cases l with
  | none =>
    show parseLiteral "none" = _
    rfl
  | bool b =>
    show parseLiteral (toString b) = _
    cases b with
    | false => rfl
    | true => rfl
  | number n => exact parseLiteral_number n
  | string s => exact parseLiteral_quoted h
  | bytes bs => exact parseLiteral_bytes bs
  | timestamp t => exact parseLiteral_timestamp t
  | enum e => exact parseLiteral_enum e

/-! ## Section 5: Tokens -/

/-- The characters of notations without quotes: those of names, a minus sign, and a colon. -/
def isBareChar (c : Char) : Bool :=
  isNameChar c || c == '-' || c == ':'

theorem isPlain_of_isBareChar {c : Char} (h : isBareChar c = true) :
    Token.isPlain c = true ∧ isBlank c = false := by
  simp only [isBareChar, Bool.or_eq_true, beq_iff_eq] at h
  rcases h with (hname | rfl) | rfl
  · exact isPlain_of_isNameChar hname
  · exact ⟨by decide, by decide⟩
  · exact ⟨by decide, by decide⟩

theorem isBareChar_of_isDigit {c : Char} (h : c.isDigit = true) : isBareChar c = true := by
  simp [isBareChar, isNameChar, h]

/-- May the text end a line as one token? -/
def EndsLine (text : String) : Prop :=
  Token.IsWhole text ∧ '\n' ∉ text.toList

theorem endsLine_of_bare {text : String} (hne : text.toList ≠ [])
    (h : text.toList.all isBareChar = true) : EndsLine text := by
  have hbare := List.all_eq_true.mp h
  constructor
  · exact (Token.spelled_of_plain hne fun c hc => isPlain_of_isBareChar (hbare c hc)).isWhole
  · intro hbreak
    exact absurd (hbare '\n' hbreak) (by decide)

theorem endsLine_of_mark {mark digits : String} (hne : mark.toList ≠ [])
    (hmark : mark.toList.all isBareChar = true)
    (hdigits : ∀ c ∈ digits.toList, isBareChar c = true) : EndsLine (mark ++ digits) := by
  apply endsLine_of_bare
  · rw [String.toList_append]
    exact List.append_ne_nil_of_left_ne_nil hne _
  · rw [String.toList_append, List.all_append, hmark, List.all_eq_true.mpr hdigits]
    rfl

theorem endsLine_number (n : Int) : EndsLine (toString n) := by
  obtain ⟨c, rest, htext, hfirst, hrest⟩ := exists_toString_eq_cons n
  apply endsLine_of_bare
  · rw [htext]
    exact List.cons_ne_nil c rest
  · rw [htext, List.all_eq_true]
    intro d hd
    rcases List.mem_cons.mp hd with rfl | hd
    · rcases hfirst with hdigit | rfl
      · exact isBareChar_of_isDigit hdigit
      · decide
    · exact isBareChar_of_isDigit (hrest d hd)

theorem endsLine_quoted {s : String} (h : ∀ c ∈ s.toList, isQuotable c = true) :
    EndsLine (quoted s) := by
  unfold quoted
  rw [List.cons_append]
  constructor
  · exact (Token.Spelled.quoted (enclosed_quoted h)).isWhole
  · have hbreak := noBreak_quoted h
    rw [String.toList_ofList]
    simp [hbreak]

/-- The notation of a scalar may end a line as one token. -/
theorem endsLine_display {v : Value} (h : v.HasNotation) : EndsLine (heap.display v) := by
  have hword : ∀ w : UInt32, ∀ c ∈ (toString w.toNat).toList, isBareChar c = true := by
    intro w c hc
    have hdigits : (toString w.toNat).toList = Nat.toDigits 10 w.toNat := Nat.toList_repr
    rw [hdigits] at hc
    exact isBareChar_of_isDigit (isDigit_of_mem_toDigits hc)
  cases v with
  | none =>
    show EndsLine "none"
    exact endsLine_of_bare (by decide) (by decide)
  | bool b =>
    show EndsLine (toString b)
    cases b with
    | false => exact endsLine_of_bare (by decide) (by decide)
    | true => exact endsLine_of_bare (by decide) (by decide)
  | number n => exact endsLine_number n
  | string s => exact endsLine_quoted h
  | bytes bs =>
    show EndsLine ("0x" ++ hexBytes bs.toList)
    refine endsLine_of_mark (by decide) (by decide) ?_
    intro c hc
    unfold hexBytes at hc
    rw [String.toList_ofList] at hc
    simp [isBareChar, isNameChar_of_mem_hexBytes hc]
  | timestamp t =>
    show EndsLine ("ts:" ++ toString t.toNat)
    exact endsLine_of_mark (by decide) (by decide) (hword t)
  | enum e =>
    show EndsLine ("enum:" ++ toString e.toNat)
    exact endsLine_of_mark (by decide) (by decide) (hword e)
  | struct _ => cases h
  | object _ => cases h

/-! ## Section 6: A line that loads a scalar -/

/-- A source of one line, which loads what a token stands for into register 0. -/
def loadLine (text : String) : String :=
  "LOAD r0, " ++ text

/-- The script of such a line. -/
def loadScript (l : Literal) : Script where
  code := (⟨.load, (0, l, ())⟩ : Instr UInt32).encode.toArray
  methods := []
  debug := some ⟨[], [(0, 1)]⟩

theorem size_loadScript (l : Literal) : (loadScript l).code.size = l.encode.length + 2 := by
  unfold loadScript
  rw [List.size_toArray, Instr.length_encode, Instr.encodedLength_load]

section LoadLine

variable {text : String} (h : EndsLine text)

include h

theorem lines_loadLine : Text.lines (loadLine text) = [loadLine text] := by
  have htext : (loadLine text).toList = "LOAD r0, ".toList ++ text.toList := String.toList_append
  apply Text.lines_of_noBreak
  · rw [htext]
    exact List.append_ne_nil_of_left_ne_nil (by decide) _
  · rw [htext, List.mem_append, not_or]
    exact ⟨by decide, h.2⟩

theorem tokenize_loadLine :
    tokenize 1 (loadLine text) = .ok [⟨"LOAD", 1⟩, ⟨"r0", 6⟩, ⟨text, 10⟩] :=
  tokenize_lastOperand h.1 fun _ => rfl

/-- The line is assembled to its instruction if offsets can reach the end of the code. -/
theorem assemble_loadLine {l : Literal} (hparse : parseLiteral text = .ok l) :
    assemble (loadLine text) =
      if UInt32.size ≤ l.encode.length + 2 then .error ⟨1, 1, .tooLarge⟩
      else .ok (loadScript l) := by
  have hinstr : parseInstr ⟨"LOAD", 1⟩ [⟨"r0", 6⟩, ⟨text, 10⟩] = .ok ⟨.load, (0, l, ())⟩ :=
    parseInstr_loadLiteral rfl hparse
  have hassemble := assemble_statement (lines_loadLine h) (tokenize_loadLine h) (by decide)
    (by decide) hinstr rfl
  rwa [Instr.encodedLength_load] at hassemble

end LoadLine

end Assembly

end ContractVM
