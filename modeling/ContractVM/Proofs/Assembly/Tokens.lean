import ContractVM.Assembly.Statement

/-! # Reading tokens

    What the scanner makes of a line, and of rows of characters that are all alike:

    * **Plain characters** extend the token that is open, and are one token by themselves.
    * **Enclosed characters** extend an open quote, and are one token with their quotes.
    * **Columns** of tokens, and of a quote that is not closed, lie in the line.
    * **Names** of labels are plain rows without blanks, so they are read as they are. -/

namespace ContractVM

/-! ## Section 1: Texts without blanks at their ends -/

/-- Nothing is trimmed from a text whose first and last characters are no blanks. -/
theorem Text.trim_eq_self {cs : List Char} (hfirst : ∀ c ∈ cs.head?, isBlank c = false)
    (hlast : ∀ c ∈ cs.getLast?, isBlank c = false) : trim cs = cs := by
  have hfront : cs.dropWhile isBlank = cs := by
    cases cs with
    | nil => rfl
    | cons c rest =>
      rw [List.dropWhile_cons_of_neg (by rw [hfirst c rfl]; exact Bool.false_ne_true)]
  unfold trim trimEnd
  rw [hfront]
  cases hrev : cs.reverse with
  | nil => rw [List.dropWhile_nil, ← hrev, List.reverse_reverse]
  | cons c rest =>
    have hc : isBlank c = false := by
      apply hlast
      rw [List.getLast?_eq_head?_reverse, hrev]
      rfl
    rw [List.dropWhile_cons_of_neg (by rw [hc]; exact Bool.false_ne_true), ← hrev,
      List.reverse_reverse]

namespace Assembly

namespace Token

/-! ## Section 2: Open tokens and open quotes -/

/-- Does the character neither separate tokens, nor end a line, nor open a quote? -/
def isPlain (c : Char) : Bool :=
  !(c == '#' || c == '"' || isSeparator c)

/-- The number of bytes of a row of characters. -/
def width : List Char → Nat
  | [] => 0
  | c :: cs => c.utf8Size + width cs

theorem isPlain_iff {c : Char} :
    isPlain c = true ↔ c ≠ '#' ∧ c ≠ '"' ∧ isSeparator c = false := by
  simp [isPlain, and_assoc]

/-- The open token after a row of characters. -/
def Partial.addAll (p : Partial) (cs : List Char) : Partial :=
  { p with read := cs.reverse ++ p.read }

theorem Partial.addAll_cons (p : Partial) (c : Char) (cs : List Char) :
    p.addAll (c :: cs) = (p.add c).addAll cs := by
  unfold addAll add
  rw [List.reverse_cons, List.append_assoc]
  rfl

/-- Plain characters extend the open token. -/
theorem scan_plain (position : Nat) (p : Partial) (cs rest : List Char)
    (h : ∀ c ∈ cs, isPlain c = true) :
    scan position (.plain p) (cs ++ rest) =
      scan (position + width cs) (.plain (p.addAll cs)) rest := by
  induction cs generalizing position p with
  | nil => rfl
  | cons c cs ih =>
    obtain ⟨hhash, hquote, hsep⟩ := isPlain_iff.mp (h c List.mem_cons_self)
    rw [List.cons_append, scan, if_neg hhash, hsep, if_neg Bool.false_ne_true, if_neg hquote,
      ih _ _ fun d hd => h d (List.mem_cons_of_mem c hd), width, Partial.addAll_cons,
      Nat.add_assoc]

/-- Does the row of characters stay inside quotes?  A quote has a backslash before it, and no
    backslash comes last. -/
inductive Enclosed : List Char → Prop where
  | nil : Enclosed []
  | plain {c : Char} {cs : List Char} (hback : c ≠ '\\') (hquote : c ≠ '"') (h : Enclosed cs) :
    Enclosed (c :: cs)
  | hidden (c : Char) {cs : List Char} (h : Enclosed cs) : Enclosed ('\\' :: c :: cs)

theorem enclosed_of_forall {cs : List Char} (h : ∀ c ∈ cs, c ≠ '\\' ∧ c ≠ '"') : Enclosed cs := by
  induction cs with
  | nil => exact .nil
  | cons c cs ih =>
    obtain ⟨hback, hquote⟩ := h c List.mem_cons_self
    exact .plain hback hquote (ih fun d hd => h d (List.mem_cons_of_mem c hd))

/-- In quotes, all characters but a backslash are read one by one. -/
theorem scan_quoted_of_ne (position : Nat) (p : Partial) {c : Char} (hback : c ≠ '\\')
    (cs : List Char) :
    scan position (.quoted p) (c :: cs) =
      scan (position + c.utf8Size) (if c = '"' then .plain (p.add c) else .quoted (p.add c))
        cs := by
  rw [scan]
  rintro d tail rfl
  exact absurd rfl hback

/-- Enclosed characters extend an open quote. -/
theorem scan_quoted (position : Nat) (p : Partial) {cs : List Char} (rest : List Char)
    (h : Enclosed cs) :
    scan position (.quoted p) (cs ++ rest) =
      scan (position + width cs) (.quoted (p.addAll cs)) rest := by
  induction h generalizing position p with
  | nil => rfl
  | @plain c cs hback hquote _ ih =>
    rw [List.cons_append, scan_quoted_of_ne position p hback, if_neg hquote, ih, width,
      Partial.addAll_cons, Nat.add_assoc]
  | @hidden c cs _ ih =>
    have hone : '\\'.utf8Size = 1 := by decide
    -- the scanner takes the backslash together with the character behind it
    rw [List.cons_append, List.cons_append, scan, ih, width, width, Partial.addAll_cons,
      Partial.addAll_cons, hone, Nat.add_assoc, Nat.add_assoc]

/-- An open token that neither starts nor ends with a blank is finished as it is. -/
theorem Partial.finish_eq {p : Partial} (hne : p.read ≠ [])
    (hfirst : ∀ c ∈ p.read.reverse.head?, Text.isBlank c = false)
    (hlast : ∀ c ∈ p.read.reverse.getLast?, Text.isBlank c = false) :
    p.finish = [⟨String.ofList p.read.reverse, p.column⟩] := by
  unfold finish
  rw [Text.trim_eq_self hfirst hlast]
  split
  · next hnil =>
    rw [List.reverse_eq_nil_iff] at hnil
    exact absurd hnil hne
  · rfl

/-- The bytes of a text are those of its characters. -/
theorem width_toList (text : String) : width text.toList = text.utf8ByteSize := by
  have hwidth : ∀ cs : List Char, width cs = (String.ofList cs).utf8ByteSize := by
    intro cs
    induction cs with
    | nil => rfl
    | cons c cs ih =>
      rw [width, ih, String.ofList_cons, String.utf8ByteSize_append, String.utf8ByteSize_singleton]
  rw [hwidth, String.ofList_toList]

theorem width_append (cs ds : List Char) : width (cs ++ ds) = width cs + width ds := by
  induction cs with
  | nil => simp [width]
  | cons c cs ih => simp only [List.cons_append, width, ih, Nat.add_assoc]

theorem width_concat (cs : List Char) (c : Char) : width (cs ++ [c]) = width cs + c.utf8Size :=
  width_append cs [c]

/-! ## Section 3: Texts that are one token -/

/-- How a token is spelled: in plain characters without blanks at the ends, or in quotes. -/
inductive Spelled : String → Prop where
  | plain {text : String} (hne : text.toList ≠ []) (hplain : ∀ c ∈ text.toList, isPlain c = true)
    (hfirst : ∀ c ∈ text.toList.head?, Text.isBlank c = false)
    (hlast : ∀ c ∈ text.toList.getLast?, Text.isBlank c = false) : Spelled text
  | quoted {body : List Char} (h : Enclosed body) :
    Spelled (String.ofList ('"' :: (body ++ ['"'])))

/-- Is the token that is open over, because the line is, or because a separator follows? -/
def EndsToken (rest : List Char) : Prop :=
  ∀ c ∈ rest.head?, isSeparator c = true

theorem isSeparator_ne_hash {c : Char} (hsep : isSeparator c = true) : c ≠ '#' := by
  rintro rfl
  revert hsep
  decide

/-- A token that is over stands in front of those in the rest of the line. -/
theorem scan_plain_end (position : Nat) (p : Partial) {rest : List Char} (hrest : EndsToken rest) :
    scan position (.plain p) rest = (p.finish ++ ·) <$> scan position .between rest := by
  cases rest with
  | nil =>
    show Except.ok p.finish = Except.ok (p.finish ++ [])
    rw [List.append_nil]
  | cons c rest =>
    have hsep : isSeparator c = true := hrest c rfl
    have hhash := isSeparator_ne_hash hsep
    simp only [scan, hhash, hsep, if_true, if_false]
    cases scan (position + 1) .between rest with
    | ok tokens => rfl
    | error column => rfl

/-- What is spelled like a token is read as an open token. -/
theorem scan_begin (position : Nat) {text : String} (htext : Spelled text) (rest : List Char) :
    scan position .between (text.toList ++ rest) =
      scan (position + text.utf8ByteSize) (.plain ⟨position + 1, text.toList.reverse⟩) rest := by
  rw [← width_toList]
  cases htext with
  | plain hne hplain hfirst hlast =>
    obtain ⟨c, cs, hcs⟩ := List.exists_cons_of_ne_nil hne
    rw [hcs] at hplain ⊢
    obtain ⟨hhash, hquote, hsep⟩ := isPlain_iff.mp (hplain c List.mem_cons_self)
    have hrest := scan_plain (position + c.utf8Size) ⟨position + 1, [c]⟩ cs rest
      fun d hd => hplain d (List.mem_cons_of_mem c hd)
    rw [List.cons_append, scan, if_neg hhash, hsep, if_neg Bool.false_ne_true]
    simp only [if_neg hquote]
    rw [hrest]
    simp [Partial.addAll, width, Nat.add_assoc]
  | @quoted body hbody =>
    have hclose : ∀ q p, scan q (.quoted p) ('"' :: rest) =
        scan (q + 1) (.plain (p.add '"')) rest := fun _ _ => rfl
    rw [String.toList_ofList, List.cons_append, List.append_assoc]
    show scan (position + 1) (.quoted ⟨position + 1, ['"']⟩) (body ++ ('"' :: rest)) = _
    rw [scan_quoted _ _ _ hbody, hclose, width, width_concat, show '"'.utf8Size = 1 from rfl]
    have hposition : position + 1 + width body + 1 = position + (1 + (width body + 1)) := by omega
    simp [Partial.add, Partial.addAll, hposition]

/-- Nothing is trimmed from what is spelled like a token. -/
theorem Spelled.finish_eq {text : String} (htext : Spelled text) (column : Nat) :
    Partial.finish ⟨column, text.toList.reverse⟩ = [⟨text, column⟩] := by
  cases htext with
  | plain hne _ hfirst hlast =>
    rw [Partial.finish_eq]
    · simp
    · simpa using hne
    · simpa using hfirst
    · simpa using hlast
  | @quoted body hbody =>
    rw [Partial.finish_eq]
    · simp
    · simp
    · simp
      decide
    · rw [List.reverse_reverse, String.toList_ofList, ← List.cons_append, List.getLast?_concat]
      simp
      decide

/-- So it is one token, in front of those in the rest of the line. -/
theorem scan_spelled (position : Nat) {text : String} (htext : Spelled text) {rest : List Char}
    (hrest : EndsToken rest) : scan position .between (text.toList ++ rest) =
      (⟨text, position + 1⟩ :: ·) <$> scan (position + text.utf8ByteSize) .between rest := by
  rw [scan_begin position htext, scan_plain_end _ _ hrest, htext.finish_eq]
  rfl

/-- Is the text one token where it ends a line? -/
def IsWhole (text : String) : Prop :=
  ∀ position, scan position .between text.toList = .ok [⟨text, position + 1⟩]

theorem Spelled.isWhole {text : String} (htext : Spelled text) : IsWhole text := by
  intro position
  have hend : EndsToken [] := nofun
  have hscan := scan_spelled position htext hend
  rw [List.append_nil] at hscan
  rw [hscan]
  rfl

/-- Plain characters without blanks are one token. -/
theorem spelled_of_plain {text : String} (hne : text.toList ≠ [])
    (h : ∀ c ∈ text.toList, isPlain c = true ∧ Text.isBlank c = false) : Spelled text :=
  .plain hne (fun c hc => (h c hc).1) (fun c hc => (h c (List.mem_of_mem_head? hc)).2)
    fun c hc => (h c (List.mem_of_getLast? hc)).2

/-! ## Section 4: Columns of tokens -/

/-- Commas, spaces and tabs take one byte. -/
theorem utf8Size_of_isSeparator {c : Char} (h : isSeparator c = true) : c.utf8Size = 1 := by
  simp only [isSeparator, Bool.or_eq_true, beq_iff_eq] at h
  rcases h with (rfl | rfl) | rfl
  · decide
  · decide
  · decide

/-- The column of the token that is being read. -/
def Mode.column? : Mode → Option Nat
  | .between => none
  | .plain p => some p.column
  | .quoted p => some p.column

/-- All columns that the scanner finds are between the first and the one given. -/
def ColumnsTo (last : Nat) : Except Nat (List Token) → Prop
  | .error column => 1 ≤ column ∧ column ≤ last
  | .ok tokens => ∀ t ∈ tokens, 1 ≤ t.column ∧ t.column ≤ last

/-- A finished token has the column at which it was begun. -/
theorem Partial.column_of_mem_finish {p : Partial} {t : Token} (h : t ∈ p.finish) :
    t.column = p.column := by
  unfold finish at h
  split at h
  · cases h
  · rw [List.mem_singleton] at h
    rw [h]

theorem columnsTo_finish {p : Partial} {last : Nat} (h : 1 ≤ p.column ∧ p.column ≤ last) :
    ColumnsTo last (.ok p.finish) := by
  intro t ht
  rw [p.column_of_mem_finish ht]
  exact h

/-- The columns of tokens lie in the line.  The invariant of the scanner is that what it has
    read and what it has not read are the whole line, and that an open token was begun in it. -/
theorem scan_columns {last : Nat} (position : Nat) (mode : Mode) (cs : List Char)
    (hlast : position + width cs = last)
    (hopen : ∀ column ∈ mode.column?, 1 ≤ column ∧ column ≤ last) :
    ColumnsTo last (scan position mode cs) := by
  fun_induction scan position mode cs with
  | case1 => intro t ht; cases ht
  | case2 position p => exact columnsTo_finish (hopen p.column rfl)
  | case3 position p => exact hopen p.column rfl
  | case4 position p d rest ih =>
    have hback : '\\'.utf8Size = 1 := by decide
    simp only [width, hback] at hlast
    exact ih (by omega) hopen
  | case5 position p c rest _ ih =>
    simp only [width] at hlast
    refine ih (by omega) ?_
    split
    · exact hopen
    · exact hopen
  | case6 => intro t ht; cases ht
  | case7 position c rest _ hsep ih =>
    simp only [width, utf8Size_of_isSeparator hsep] at hlast
    exact ih (by omega) hopen
  | case8 position c rest _ _ p ih =>
    -- a token is begun at this character, which has at least one byte
    have hpos := c.utf8Size_pos
    simp only [width] at hlast
    refine ih (by omega) ?_
    have hfirst : 1 ≤ p.column ∧ p.column ≤ last := by
      show 1 ≤ position + 1 ∧ position + 1 ≤ last
      omega
    split
    · rintro column ⟨⟩
      exact hfirst
    · rintro column ⟨⟩
      exact hfirst
  | case9 position p rest => exact columnsTo_finish (hopen p.column rfl)
  | case10 position p c rest _ hsep ih =>
    simp only [width, utf8Size_of_isSeparator hsep] at hlast
    have hrest := ih (by omega) (by rintro column ⟨⟩)
    have hfront := columnsTo_finish (hopen p.column rfl)
    cases hscan : scan (position + 1) .between rest with
    | error column =>
      rw [hscan] at hrest
      exact hrest
    | ok tokens =>
      rw [hscan] at hrest
      intro t ht
      rcases List.mem_append.mp ht with ht | ht
      · exact hfront t ht
      · exact hrest t ht
  | case11 position p c rest _ _ ih =>
    simp only [width] at hlast
    refine ih (by omega) ?_
    split
    · exact hopen
    · exact hopen

end Token

/-- A line whose quotes are closed has the tokens that the scanner finds. -/
theorem tokenize_eq_ok {line : Nat} {text : String} {tokens : List Token}
    (h : Token.scan 0 .between text.toList = .ok tokens) : tokenize line text = .ok tokens := by
  unfold tokenize
  rw [h]

/-! ## Section 5: Names of labels -/

/-- May this character stand in a label name? -/
def isNameChar (c : Char) : Bool :=
  isLabelStart c || c.isDigit

theorem isLabelName_iff {name : String} :
    isLabelName name = true ↔
      ∃ c rest, name.toList = c :: rest ∧ isLabelStart c = true ∧
        ∀ d ∈ c :: rest, isNameChar d = true := by
  unfold isLabelName
  cases name.toList with
  | nil => simp
  | cons c rest =>
    constructor
    · intro h
      obtain ⟨hc, hrest⟩ := Bool.and_eq_true_iff.mp h
      refine ⟨c, rest, rfl, hc, ?_⟩
      intro d hd
      rcases List.mem_cons.mp hd with rfl | hd
      · exact Bool.or_eq_true_iff.mpr (.inl hc)
      · exact List.all_eq_true.mp hrest d hd
    · rintro ⟨c', rest', heq, hc, hall⟩
      cases heq
      exact Bool.and_eq_true_iff.mpr
        ⟨hc, List.all_eq_true.mpr fun d hd => hall d (List.mem_cons_of_mem c hd)⟩

/-- The code points of letters. -/
theorem toNat_of_isAlpha {c : Char} (h : c.isAlpha = true) :
    (65 ≤ c.toNat ∧ c.toNat ≤ 90) ∨ (97 ≤ c.toNat ∧ c.toNat ≤ 122) := by
  rcases Bool.or_eq_true_iff.mp h with hupper | hlower
  · have hrange : 'A'.val ≤ c.val ∧ c.val ≤ 'Z'.val := of_decide_eq_true hupper
    exact .inl ⟨UInt32.le_iff_toNat_le.mp hrange.1, UInt32.le_iff_toNat_le.mp hrange.2⟩
  · obtain ⟨hlow, hhigh⟩ := Bool.and_eq_true_iff.mp hlower
    exact .inr ⟨UInt32.le_iff_toNat_le.mp (of_decide_eq_true hlow),
      UInt32.le_iff_toNat_le.mp (of_decide_eq_true hhigh)⟩

/-- Names start with letters, underscores and dots. -/
theorem toNat_of_isLabelStart {c : Char} (h : isLabelStart c = true) :
    (65 ≤ c.toNat ∧ c.toNat ≤ 90) ∨ (97 ≤ c.toNat ∧ c.toNat ≤ 122) ∨ c.toNat = 95 ∨
      c.toNat = 46 := by
  simp only [isLabelStart, Bool.or_eq_true, beq_iff_eq] at h
  rcases h with (hletter | rfl) | rfl
  · have hrange := toNat_of_isAlpha hletter
    omega
  · exact .inr (.inr (.inl rfl))
  · exact .inr (.inr (.inr rfl))

theorem toNat_of_isDigit {c : Char} (h : c.isDigit = true) : 48 ≤ c.toNat ∧ c.toNat ≤ 57 :=
  Char.isDigit_iff_toNat.mp h

/-- The code points of name characters. -/
theorem toNat_of_isNameChar {c : Char} (h : isNameChar c = true) :
    46 ≤ c.toNat ∧ c.toNat ≤ 122 ∧ c.toNat ≠ 47 ∧ c.toNat ≠ 92 ∧ c.toNat ≠ 58 := by
  rcases Bool.or_eq_true_iff.mp h with hstart | hdigit
  · have hrange := toNat_of_isLabelStart hstart
    omega
  · have hrange := toNat_of_isDigit hdigit
    omega

/-- A name does not start with a digit. -/
theorem not_isDigit_of_isLabelStart {c : Char} (h : isLabelStart c = true) :
    ¬c.isDigit = true := by
  intro hdigit
  have hstart := toNat_of_isLabelStart h
  have hrange := toNat_of_isDigit hdigit
  omega

/-- A name character is plain, and no blank. -/
theorem isPlain_of_isNameChar {c : Char} (h : isNameChar c = true) :
    Token.isPlain c = true ∧ Text.isBlank c = false := by
  obtain ⟨hlow, hhigh, -, -, -⟩ := toNat_of_isNameChar h
  have hne : ∀ d : Char, d.toNat < 46 → c ≠ d := by
    rintro d hd rfl
    omega
  constructor
  · rw [Token.isPlain_iff]
    refine ⟨hne '#' (by decide), hne '"' (by decide), ?_⟩
    simp [Token.isSeparator, hne ',' (by decide), hne ' ' (by decide), hne '\t' (by decide)]
  · have hval : c.toNat = c.val.toNat := rfl
    rw [hval] at hlow hhigh
    simp only [Text.isBlank, Bool.or_eq_false_iff, Bool.and_eq_false_iff, decide_eq_false_iff_not,
      beq_eq_false_iff_ne, ne_eq, UInt32.le_iff_toNat_le, ← UInt32.toNat_inj]
    simp
    omega

/-- A name holds neither backslashes nor quotes. -/
theorem unquoted_of_isNameChar {c : Char} (h : isNameChar c = true) : c ≠ '\\' ∧ c ≠ '"' := by
  obtain ⟨hlow, -, -, hback, -⟩ := toNat_of_isNameChar h
  constructor
  · rintro rfl
    exact hback rfl
  · rintro rfl
    revert hlow
    decide

/-- A name is one token, without quotes and with them. -/
theorem spelled_of_isLabelName {name : String} (h : isLabelName name = true) :
    Token.Spelled name := by
  obtain ⟨c, rest, hname, -, hchars⟩ := isLabelName_iff.mp h
  rw [← hname] at hchars
  apply Token.spelled_of_plain
  · rw [hname]
    exact List.cons_ne_nil c rest
  · exact fun d hd => isPlain_of_isNameChar (hchars d hd)

theorem spelled_of_quotedName {name : String} (h : isLabelName name = true) :
    Token.Spelled ("\"" ++ name ++ "\"") := by
  obtain ⟨c, rest, hname, -, hchars⟩ := isLabelName_iff.mp h
  rw [← hname] at hchars
  have htext : "\"" ++ name ++ "\"" = String.ofList ('"' :: (name.toList ++ ['"'])) := by
    apply String.toList_inj.mp
    simp
  rw [htext]
  exact .quoted (Token.enclosed_of_forall fun d hd => unquoted_of_isNameChar (hchars d hd))

end Assembly

end ContractVM
