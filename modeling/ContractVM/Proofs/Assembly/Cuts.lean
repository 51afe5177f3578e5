import ContractVM.Proofs.Assembly.Tokens
import ContractVM.Proofs.Value.Slices

/-! # Cutting lines by their bytes

    A line can be cut into tokens without looking at its characters: a pass over the bytes takes
    the slices between separators, and jumps over two bytes at a backslash inside quotes, which
    may end in the middle of a character.

    * **Marks**: separators, quotes, backslashes and number signs are single bytes, and these bytes
      stand in no other character.  So the pass comes to the same marks as the scanner does.
    * **Slices**: a token is opened at a mark or at the first byte of a character, and it is closed
      at a mark or at the end of the line.  So every slice lies between characters.
    * **Tokens**: the texts of the slices, without blanks at their ends, are the tokens. -/

namespace ContractVM.Assembly

namespace Token

/-! ## Section 1: The pass over the bytes -/

/-- A part of a line that is taken for a token: its first byte, the byte behind its last one, and
    the column of the token. -/
structure Slice where
  first : Nat
  stop : Nat
  column : Nat
  deriving DecidableEq, Repr

/-- Where the pass stands: the first byte of the open token, the column of the token that was
    opened last, and whether a quote is open. -/
structure Cutter where
  first : Option Nat
  column : Nat
  quoted : Bool

/-- What the pass finds: the slices, and the column of the token in which a quote stays open. -/
structure Cuts where
  slices : List Slice
  unclosed : Option Nat
  deriving DecidableEq, Repr

/-- Does this byte separate tokens? -/
def isSeparatorByte (b : UInt8) : Bool :=
  b == ','.toUInt8 || b == ' '.toUInt8 || b == '\t'.toUInt8

namespace Cutter

/-- Opens a token, unless one is open. -/
def begin (s : Cutter) (position : Nat) : Cutter :=
  if s.first = none then { s with first := some position, column := position + 1 } else s

/-- The slice of the open token. -/
def slices (s : Cutter) (position : Nat) : List Slice :=
  match s.first with
  | some first => [⟨first, position, s.column⟩]
  | none => []

end Cutter

/-- Cuts the rest of a line, which starts after `position` bytes. -/
def cut (position : Nat) (s : Cutter) : List UInt8 → Cuts
  | [] => if s.quoted then ⟨[], some s.column⟩ else ⟨s.slices position, none⟩
  | b :: rest =>
    -- the slice in front of a comment goes to the end of the line
    if b = '#'.toUInt8 ∧ ¬s.quoted then ⟨s.slices (position + 1 + rest.length), none⟩
    else if b = '\\'.toUInt8 ∧ s.quoted then cut (position + 2) s rest.tail
    else if b = '"'.toUInt8 then
      cut (position + 1) { s.begin position with quoted := !s.quoted } rest
    else if isSeparatorByte b ∧ ¬s.quoted then
      let cuts := cut (position + 1) { s with first := none } rest
      { cuts with slices := s.slices position ++ cuts.slices }
    else cut (position + 1) (s.begin position) rest
termination_by bytes => bytes.length
decreasing_by
  all_goals simp only [List.length_cons, List.length_tail]
  all_goals omega

/-- The tokens that the slices of a line hold.  There are none where a slice cuts through a
    character. -/
def tokensOf? (line : String) : List Slice → Option (List Token)
  | [] => some []
  | slice :: rest => do
    let text ← sliceText? line slice.first slice.stop
    let tokens ← tokensOf? line rest
    return (Partial.finish ⟨slice.column, text.toList.reverse⟩) ++ tokens

/-- What the cuts of a line make of it: its tokens, or the column of one with an open quote. -/
def Cuts.read? (line : String) (cuts : Cuts) : Option (Except Nat (List Token)) :=
  (tokensOf? line cuts.slices).map fun tokens =>
    match cuts.unclosed with
    | some column => .error column
    | none => .ok tokens

/-- The cuts of a whole line. -/
def cuts (line : String) : Cuts :=
  cut 0 ⟨none, 0, false⟩ line.toUTF8.data.toList

end Token

/-- The tokens of a line, by a pass over its bytes.  There is no result where a slice cuts through
    a character. -/
def tokenizeBytes? (line : Nat) (text : String) : Option (Except Diagnostic (List Token)) :=
  ((Token.cuts text).read? text).map fun found =>
    match found with
    | .ok tokens => .ok tokens
    | .error column => .error ⟨line, column, .unterminatedString⟩

/-! ## Section 2: Bytes of characters -/

/-- The bytes of a row of characters. -/
def bytesOf (cs : List Char) : List UInt8 :=
  cs.flatMap String.utf8EncodeChar

theorem bytesOf_cons (c : Char) (cs : List Char) :
    bytesOf (c :: cs) = String.utf8EncodeChar c ++ bytesOf cs :=
  List.flatMap_cons

theorem toUTF8_toList (s : String) : s.toUTF8.data.toList = bytesOf s.toList := by
  have hbytes := String.toByteArray_ofList (l := s.toList)
  rw [String.ofList_toList] at hbytes
  show s.toByteArray.data.toList = _
  rw [hbytes, List.utf8Encode, List.toList_data_toByteArray]
  rfl

theorem length_bytesOf (cs : List Char) : (bytesOf cs).length = Token.width cs := by
  induction cs with
  | nil => rfl
  | cons c cs ih =>
    rw [bytesOf_cons, List.length_append, String.length_utf8EncodeChar, ih]
    rfl

/-- A small byte is a character by itself. -/
theorem eq_of_mem_utf8EncodeChar {c : Char} {b : UInt8} (hb : b ∈ String.utf8EncodeChar c)
    (hsmall : b.toNat < 128) : c.toNat = b.toNat ∧ String.utf8EncodeChar c = [b] := by
  have hc : c.toNat = c.val.toNat := rfl
  unfold String.utf8EncodeChar at hb ⊢
  dsimp only at hb ⊢
  by_cases hone : c.val.toNat ≤ 127
  · simp only [hone, if_true, List.mem_singleton] at hb ⊢
    subst hb
    simp only [UInt8.toNat_ofNat', and_true]
    omega
  · -- all bytes of longer characters have the highest bit
    exfalso
    have hhigh : 128 ≤ b.toNat := by
      simp only [hone, if_false] at hb
      split at hb
      · simp only [List.mem_cons, List.not_mem_nil, or_false] at hb
        rcases hb with rfl | rfl
        all_goals simp only [UInt8.toNat_ofNat']
        all_goals omega
      · split at hb
        all_goals simp only [List.mem_cons, List.not_mem_nil, or_false] at hb
        · rcases hb with rfl | rfl | rfl
          all_goals simp only [UInt8.toNat_ofNat']
          all_goals omega
        · rcases hb with rfl | rfl | rfl | rfl
          all_goals simp only [UInt8.toNat_ofNat']
          all_goals omega
    omega

theorem utf8EncodeChar_of_small {c : Char} (hc : c.toNat < 128) :
    String.utf8EncodeChar c = [c.toUInt8] := by
  have hle : c.val ≤ 127 := UInt32.le_iff_toNat_le.mpr (Nat.le_of_lt_succ hc)
  exact String.utf8EncodeChar_eq_singleton (Char.utf8Size_eq_one_iff.mpr hle)

/-- The bytes of small characters stand in no other character. -/
theorem toUInt8_mem_utf8EncodeChar {c d : Char} (hd : d.toNat < 128) :
    d.toUInt8 ∈ String.utf8EncodeChar c ↔ c = d := by
  constructor
  · intro hmem
    have hbyte : d.toUInt8.toNat = d.toNat := by
      have hval : d.val.toNat < 128 := hd
      show d.val.toUInt8.toNat = d.val.toNat
      rw [UInt32.toNat_toUInt8]
      omega
    obtain ⟨hc, -⟩ := eq_of_mem_utf8EncodeChar hmem (by omega)
    exact Char.ext (UInt32.toNat_inj.mp (hc.trans hbyte))
  · rintro rfl
    rw [utf8EncodeChar_of_small hd]
    exact List.mem_singleton_self _

namespace Token

/-! ## Section 3: Passing over characters -/

namespace Cutter

/-- Is this byte no mark where the pass stands? -/
def Passes (s : Cutter) (b : UInt8) : Prop :=
  b ≠ '"'.toUInt8 ∧
    if s.quoted then b ≠ '\\'.toUInt8 else b ≠ '#'.toUInt8 ∧ isSeparatorByte b = false

@[simp]
theorem quoted_begin (s : Cutter) (position : Nat) : (s.begin position).quoted = s.quoted := by
  unfold begin
  split
  · rfl
  · rfl

theorem begin_of_open {s : Cutter} (hopen : s.first ≠ none) (position : Nat) :
    s.begin position = s :=
  if_neg hopen

theorem open_begin (s : Cutter) (position : Nat) : (s.begin position).first ≠ none := by
  unfold begin
  split
  · simp
  · assumption

end Cutter

variable {s : Cutter} {c d : Char}

theorem cut_of_passes {b : UInt8} (hb : s.Passes b) (position : Nat) (rest : List UInt8) :
    cut position s (b :: rest) = cut (position + 1) (s.begin position) rest := by
  unfold Cutter.Passes at hb
  rw [cut]
  by_cases hquoted : s.quoted = true
  · simp only [hquoted, if_true] at hb
    simp [hquoted, hb]
  · simp only [hquoted, Bool.false_eq_true, if_false] at hb
    simp [hquoted, hb]

/-- In an open token, bytes without marks make no difference but for their number. -/
theorem cut_of_all_pass (hopen : s.first ≠ none) {bs : List UInt8} (hbs : ∀ b ∈ bs, s.Passes b)
    (position : Nat) (rest : List UInt8) :
    cut position s (bs ++ rest) = cut (position + bs.length) s rest := by
  induction bs generalizing position with
  | nil => rfl
  | cons b bs ih =>
    have hfirst := hbs b List.mem_cons_self
    have hrest := ih (fun b hb => hbs b (List.mem_cons_of_mem _ hb)) (position + 1)
    rw [List.cons_append, cut_of_passes hfirst, s.begin_of_open hopen, hrest, List.length_cons]
    congr 1
    omega

/-- A character without marks opens a token, or goes on with it. -/
theorem cut_unmarked (hc : ∀ b ∈ String.utf8EncodeChar c, s.Passes b) (position : Nat)
    (rest : List Char) :
    cut position s (bytesOf (c :: rest)) =
      cut (position + c.utf8Size) (s.begin position) (bytesOf rest) := by
  obtain ⟨b, bs, hbytes⟩ := List.exists_cons_of_ne_nil (String.utf8EncodeChar_ne_nil (c := c))
  have hlength := String.length_utf8EncodeChar c
  rw [hbytes] at hc hlength
  have hbs : ∀ b' ∈ bs, (s.begin position).Passes b' := by
    intro b' hb'
    simpa [Cutter.Passes] using hc b' (List.mem_cons_of_mem b hb')
  rw [bytesOf_cons, hbytes, List.cons_append, cut_of_passes (hc b List.mem_cons_self),
    cut_of_all_pass (s.open_begin position) hbs, ← hlength, List.length_cons]
  congr 1
  omega

/-- A character that is no mark has no bytes that are. -/
theorem passes_of_ne (hquote : c ≠ '"')
    (hmark : if s.quoted then c ≠ '\\' else c ≠ '#' ∧ isSeparator c = false) :
    ∀ b ∈ String.utf8EncodeChar c, s.Passes b := by
  have hne : ∀ {d : Char}, d.toNat < 128 → c ≠ d →
      ∀ b ∈ String.utf8EncodeChar c, b ≠ d.toUInt8 := by
    rintro d hd hcd b hb rfl
    exact hcd ((toUInt8_mem_utf8EncodeChar hd).mp hb)
  intro b hb
  refine ⟨hne (by decide) hquote b hb, ?_⟩
  by_cases hquoted : s.quoted = true
  · rw [if_pos hquoted] at hmark ⊢
    exact hne (by decide) hmark b hb
  · rw [if_neg hquoted] at hmark ⊢
    obtain ⟨hhash, hsep⟩ := hmark
    simp only [isSeparator, Bool.or_eq_false_iff, beq_eq_false_iff_ne] at hsep
    obtain ⟨⟨hcomma, hspace⟩, htab⟩ := hsep
    refine ⟨hne (by decide) hhash b hb, ?_⟩
    simp only [isSeparatorByte, Bool.or_eq_false_iff, beq_eq_false_iff_ne]
    exact ⟨⟨hne (by decide) hcomma b hb, hne (by decide) hspace b hb⟩,
      hne (by decide) htab b hb⟩

/-! ## Section 4: Marks -/

theorem cut_end (position : Nat) : cut position s (bytesOf []) =
    if s.quoted then ⟨[], some s.column⟩ else ⟨s.slices position, none⟩ := by
  show cut position s [] = _
  rw [cut]

theorem cut_quote (position : Nat) (rest : List Char) :
    cut position s (bytesOf ('"' :: rest)) =
      cut (position + 1) { s.begin position with quoted := !s.quoted } (bytesOf rest) := by
  have hhash : '"'.toUInt8 ≠ '#'.toUInt8 := by decide
  have hback : '"'.toUInt8 ≠ '\\'.toUInt8 := by decide
  rw [bytesOf_cons, utf8EncodeChar_of_small (by decide), List.singleton_append, cut,
    if_neg (fun h => hhash h.1), if_neg (fun h => hback h.1), if_pos rfl]

/-- What is read as it stands opens a token or goes on with it, and a quote does so, too. -/
theorem cut_char (hmark : if s.quoted then c ≠ '\\' else c ≠ '#' ∧ isSeparator c = false)
    (position : Nat) (rest : List Char) :
    cut position s (bytesOf (c :: rest)) = cut (position + c.utf8Size)
      (if c = '"' then { s.begin position with quoted := !s.quoted } else s.begin position)
      (bytesOf rest) := by
  by_cases hquote : c = '"'
  · subst hquote
    exact cut_quote position rest
  · rw [if_neg hquote]
    exact cut_unmarked (passes_of_ne hquote hmark) position rest

/-- The pass jumps over a backslash in quotes and the first byte of the next character.  It goes
    on in that character, but there are no marks behind the first byte. -/
theorem cut_hidden (hquoted : s.quoted = true) (hopen : s.first ≠ none) (position : Nat)
    (rest : List Char) :
    cut position s (bytesOf ('\\' :: d :: rest)) =
      cut (position + 1 + d.utf8Size) s (bytesOf rest) := by
  obtain ⟨b, bs, hbytes⟩ := List.exists_cons_of_ne_nil (String.utf8EncodeChar_ne_nil (c := d))
  have hlength := String.length_utf8EncodeChar d
  rw [hbytes] at hlength
  have hbs : ∀ b' ∈ bs, s.Passes b' := by
    intro b' hb'
    have hmem : b' ∈ String.utf8EncodeChar d := by
      rw [hbytes]
      exact List.mem_cons_of_mem b hb'
    have hlarge : ¬b'.toNat < 128 := by
      intro hsmall
      obtain ⟨-, hsingle⟩ := eq_of_mem_utf8EncodeChar hmem hsmall
      rw [hbytes] at hsingle
      cases hsingle
      cases hb'
    constructor
    · rintro rfl
      exact hlarge (by decide)
    · rw [if_pos hquoted]
      rintro rfl
      exact hlarge (by decide)
  have hstep : cut position s ('\\'.toUInt8 :: b :: (bs ++ bytesOf rest)) =
      cut (position + 2) s (bs ++ bytesOf rest) := by
    rw [cut]
    simp [hquoted]
  rw [bytesOf_cons, bytesOf_cons, utf8EncodeChar_of_small (by decide), hbytes,
    List.singleton_append, List.cons_append, hstep, cut_of_all_pass hopen hbs, ← hlength,
    List.length_cons]
  congr 1
  omega

/-- Behind a backslash at the end of a line there is nothing to be hidden. -/
theorem cut_last_backslash (hquoted : s.quoted = true) (position : Nat) :
    cut position s (bytesOf ['\\']) = ⟨[], some s.column⟩ := by
  have hhash : '\\'.toUInt8 ≠ '#'.toUInt8 := by decide
  rw [bytesOf_cons, utf8EncodeChar_of_small (by decide), List.singleton_append, cut,
    if_neg (fun h => hhash h.1), if_pos ⟨rfl, hquoted⟩]
  show cut (position + 2) s [] = _
  rw [cut, if_pos hquoted]

theorem cut_hash (hquoted : s.quoted = false) (position : Nat) (rest : List Char) :
    cut position s (bytesOf ('#' :: rest)) =
      ⟨s.slices (position + width ('#' :: rest)), none⟩ := by
  have hone : '#'.utf8Size = 1 := by decide
  rw [bytesOf_cons, utf8EncodeChar_of_small (by decide), List.singleton_append, cut,
    if_pos ⟨rfl, by simp [hquoted]⟩, length_bytesOf, width, hone, Nat.add_assoc]

theorem cut_separator (hquoted : s.quoted = false) (hsep : isSeparator c = true) (position : Nat)
    (rest : List Char) :
    cut position s (bytesOf (c :: rest)) =
      let cuts := cut (position + 1) { s with first := none } (bytesOf rest)
      { cuts with slices := s.slices position ++ cuts.slices } := by
  have hbyte : c.toNat < 128 ∧ c.toUInt8 ≠ '#'.toUInt8 ∧ c.toUInt8 ≠ '"'.toUInt8 ∧
      isSeparatorByte c.toUInt8 = true := by
    simp only [isSeparator, Bool.or_eq_true, beq_iff_eq] at hsep
    rcases hsep with (rfl | rfl) | rfl
    · decide
    · decide
    · decide
  obtain ⟨hsmall, hhash, hquote, hmark⟩ := hbyte
  rw [bytesOf_cons, utf8EncodeChar_of_small hsmall, List.singleton_append, cut,
    if_neg (fun h => hhash h.1), if_neg (by simp [hquoted]), if_neg hquote,
    if_pos ⟨hmark, by simp [hquoted]⟩]

/-! ## Section 5: Slices -/

/-- Does the slice lie between characters of the line, with the column of its first byte? -/
structure Slice.Fits (line : String) (slice : Slice) : Prop where
  ordered : slice.first ≤ slice.stop
  first : IsBoundary line slice.first
  stop : IsBoundary line slice.stop
  column : slice.column = slice.first + 1

theorem bytesOf_append (cs ds : List Char) : bytesOf (cs ++ ds) = bytesOf cs ++ bytesOf ds :=
  List.flatMap_append

theorem isBoundary_width {line : String} {front back : List Char}
    (hline : line.toList = front ++ back) : IsBoundary line (width front) := by
  refine ⟨String.ofList front, String.ofList back, ?_, ?_⟩
  · rw [← String.ofList_append, ← hline, String.ofList_toList]
  · rw [← width_toList, String.toList_ofList]

section Line

variable {line : String} {before middle rest : List Char}

/-- The slice of a token that was opened and that stands in the line up to here. -/
def openSlice (before middle : List Char) : Slice :=
  ⟨width before, width before + width middle, width before + 1⟩

theorem fits_openSlice (hline : line.toList = before ++ middle ++ rest) :
    (openSlice before middle).Fits line where
  ordered := Nat.le_add_right _ _
  first := by
    rw [List.append_assoc] at hline
    exact isBoundary_width hline
  stop := by
    show IsBoundary line (width before + width middle)
    rw [← width_append]
    exact isBoundary_width hline
  column := rfl

/-- Its text consists of the characters there. -/
theorem sliceText?_openSlice (hline : line.toList = before ++ middle ++ rest) :
    sliceText? line (openSlice before middle).first (openSlice before middle).stop =
      some (String.ofList middle) := by
  have hfits := fits_openSlice hline
  refine sliceText?_eq_some_iff.mpr ⟨hfits.first, hfits.stop, ?_⟩
  have hbytes : line.toUTF8.data.toList = bytesOf before ++ bytesOf middle ++ bytesOf rest := by
    rw [toUTF8_toList, hline, bytesOf_append, bytesOf_append]
  apply ByteArray.ext
  apply Array.toList_inj.mp
  rw [ByteArray.data_extract, Array.toList_extract, hbytes, toUTF8_toList, String.toList_ofList,
    openSlice, ← length_bytesOf, ← length_bytesOf]
  simp

/-- The slices of the cuts fit, and their texts are what the scanner has found. -/
structure Cuts.Yields (line : String) (cuts : Cuts) (found : Except Nat (List Token)) : Prop where
  fits : ∀ slice ∈ cuts.slices, slice.Fits line
  read : cuts.read? line = some found

theorem yields_nil (line : String) : Cuts.Yields line ⟨[], none⟩ (.ok []) where
  fits _ := nofun
  read := rfl

theorem yields_unclosed (line : String) (column : Nat) :
    Cuts.Yields line ⟨[], some column⟩ (.error column) where
  fits _ := nofun
  read := rfl

/-- The slice of a token in front of other ones. -/
theorem Cuts.Yields.cons (hline : line.toList = before ++ middle ++ rest) {cuts : Cuts}
    {found : Except Nat (List Token)} (hyields : cuts.Yields line found) {p : Partial}
    (hcolumn : p.column = width before + 1) (hread : p.read = middle.reverse) :
    Cuts.Yields line { cuts with slices := openSlice before middle :: cuts.slices }
      (do let tokens ← found; return p.finish ++ tokens) where
  fits := by
    intro slice hslice
    rcases List.mem_cons.mp hslice with rfl | hslice
    · exact fits_openSlice hline
    · exact hyields.fits slice hslice
  read := by
    obtain ⟨-, hread'⟩ := hyields
    unfold Cuts.read? at hread' ⊢
    obtain ⟨tokens, htokens, rfl⟩ := Option.map_eq_some_iff.mp hread'
    have hp : p = ⟨width before + 1, middle.reverse⟩ := by
      cases p
      subst hcolumn hread
      rfl
    have hcolumn' : (openSlice before middle).column = width before + 1 := rfl
    simp only [tokensOf?, sliceText?_openSlice hline, hcolumn', htokens, bind, Option.bind_some,
      pure, Option.map_some, String.toList_ofList, hp]
    cases cuts.unclosed with
    | some column => rfl
    | none => rfl

theorem yields_single (hline : line.toList = before ++ middle ++ rest) {p : Partial}
    (hcolumn : p.column = width before + 1) (hread : p.read = middle.reverse) :
    Cuts.Yields line ⟨[openSlice before middle], none⟩ (.ok p.finish) := by
  have hsingle := (yields_nil line).cons hline hcolumn hread
  simpa [bind, Except.bind, pure, Except.pure] using hsingle

/-! ## Section 6: The pass and the scanner -/

/-- The pass and the scanner stand at the same place, with the characters `middle` in the token
    that is open. -/
inductive Tracks (before : List Char) : List Char → Mode → Cutter → Prop where
  | between {column : Nat} : Tracks before [] .between ⟨none, column, false⟩
  | plain {middle : List Char} {p : Partial} (hcolumn : p.column = width before + 1)
    (hread : p.read = middle.reverse) :
    Tracks before middle (.plain p) ⟨some (width before), width before + 1, false⟩
  | quoted {middle : List Char} {p : Partial} (hcolumn : p.column = width before + 1)
    (hread : p.read = middle.reverse) :
    Tracks before middle (.quoted p) ⟨some (width before), width before + 1, true⟩

/-! The open token goes on with the character at which they stand. -/

theorem concat_line {c : Char} (hline : line.toList = before ++ middle ++ c :: rest) :
    line.toList = before ++ (middle ++ [c]) ++ rest := by
  simpa using hline

theorem concat_position {position : Nat} {c : Char}
    (hposition : position = width before + width middle) :
    position + c.utf8Size = width before + width (middle ++ [c]) := by
  rw [width_concat, hposition, Nat.add_assoc]

theorem concat_read {p : Partial} {c : Char} (hread : p.read = middle.reverse) :
    (p.add c).read = (middle ++ [c]).reverse := by
  simp [Partial.add, hread]

/-- So they find the same tokens.  The invariant is that the line consists of what is in front of
    the open token, the token and what is not read yet. -/
theorem yields_cut (position : Nat) (mode : Mode) (rest : List Char) {before middle : List Char}
    {s : Cutter} (hline : line.toList = before ++ middle ++ rest)
    (hposition : position = width before + width middle) (htracks : Tracks before middle mode s) :
    Cuts.Yields line (cut position s (bytesOf rest)) (scan position mode rest) := by
  fun_induction scan position mode rest generalizing before middle s with
  | case1 =>
    cases htracks with
    | between =>
      rw [cut_end]
      exact yields_nil line
  | case2 position p =>
    cases htracks with
    | plain hcolumn hread =>
      rw [cut_end, hposition]
      exact yields_single hline hcolumn hread
  | case3 position p =>
    cases htracks with
    | quoted hcolumn hread =>
      rw [cut_end, hcolumn]
      exact yields_unclosed line _
  | case4 position p d rest ih =>
    cases htracks with
    | quoted hcolumn hread =>
      -- both characters join the token, whatever the second one is
      have hback : '\\'.utf8Size = 1 := by decide
      have hline' : line.toList = before ++ (middle ++ ['\\', d]) ++ rest := by simpa using hline
      rw [cut_hidden rfl (Option.some_ne_none _)]
      refine ih hline' ?_ (.quoted hcolumn ?_)
      · simp only [width_append, width, hback]
        omega
      · simp [Partial.add, hread]
  | case5 position p c rest hback ih =>
    cases htracks with
    | quoted hcolumn hread =>
      by_cases hlast : c = '\\'
      · -- nothing stands behind a backslash that hides no character
        obtain rfl : rest = [] := by
          cases rest with
          | nil => rfl
          | cons d rest => exact absurd rfl (hback d rest hlast)
        subst hlast
        rw [cut_last_backslash rfl, if_neg (by decide), scan, Partial.add, hcolumn]
        exact yields_unclosed line _
      · rw [cut_char (by simpa using hlast), Cutter.begin_of_open (Option.some_ne_none _)]
        refine ih (concat_line hline) (concat_position hposition) ?_
        split
        · exact .plain hcolumn (concat_read hread)
        · exact .quoted hcolumn (concat_read hread)
  | case6 position rest =>
    cases htracks with
    | between =>
      rw [cut_hash rfl]
      exact yields_nil line
  | case7 position c rest hhash hsep ih =>
    cases htracks with
    | between =>
      -- the separator stands in front of whatever is opened next
      have hline' : line.toList = before ++ [c] ++ [] ++ rest := by simpa using hline
      rw [cut_separator rfl hsep]
      refine ih hline' ?_ .between
      rw [width_concat, utf8Size_of_isSeparator hsep, hposition]
      rfl
  | case8 position c rest hhash hsep p =>
    rename_i ih
    cases htracks with
    | @between column =>
      -- a token is opened where the pass stands
      obtain rfl : position = width before := hposition
      have hopen : Cutter.begin ⟨none, column, false⟩ (width before) =
          ⟨some (width before), width before + 1, false⟩ := rfl
      rw [cut_char (by simp [hhash, hsep]), hopen]
      refine ih (concat_line hline) rfl ?_
      split
      · exact .quoted rfl rfl
      · exact .plain rfl rfl
  | case9 position p rest =>
    cases htracks with
    | plain hcolumn hread =>
      -- the slice takes the comment along
      have hline' : line.toList = before ++ (middle ++ '#' :: rest) ++ [] := by simpa using hline
      have hread' : rest.reverse ++ '#' :: p.read = (middle ++ '#' :: rest).reverse := by
        simp [hread]
      have hsingle := yields_single (p := { p with read := rest.reverse ++ '#' :: p.read })
        hline' hcolumn hread'
      rw [cut_hash rfl, hposition, Nat.add_assoc, ← width_append]
      exact hsingle
  | case10 position p c rest hhash hsep ih =>
    cases htracks with
    | plain hcolumn hread =>
      have hline' : line.toList = before ++ middle ++ [c] ++ [] ++ rest := by simpa using hline
      have hposition' : position + 1 = width (before ++ middle ++ [c]) + width [] := by
        rw [width_concat, width_append, utf8Size_of_isSeparator hsep, hposition]
        rfl
      -- behind the separator no token is open, although the column of this one is still there
      have htracks' : Tracks (before ++ middle ++ [c]) [] .between
          ⟨none, width before + 1, false⟩ := .between
      have hrest := ih hline' hposition' htracks'
      rw [cut_separator rfl hsep]
      subst hposition
      exact hrest.cons hline hcolumn hread
  | case11 position p c rest hhash hsep ih =>
    cases htracks with
    | plain hcolumn hread =>
      rw [cut_char (by simp [hhash, hsep]), Cutter.begin_of_open (Option.some_ne_none _)]
      refine ih (concat_line hline) (concat_position hposition) ?_
      split
      · exact .quoted hcolumn (concat_read hread)
      · exact .plain hcolumn (concat_read hread)

end Line

theorem yields_cuts (line : String) :
    Cuts.Yields line (cuts line) (scan 0 .between line.toList) := by
  have hline : line.toList = [] ++ [] ++ line.toList := rfl
  unfold cuts
  rw [toUTF8_toList]
  exact yields_cut 0 .between line.toList hline rfl .between

end Token

/-- Cutting a line by its bytes always has a result, which is that of cutting it by characters. -/
theorem tokenizeBytes?_eq (line : Nat) (text : String) :
    tokenizeBytes? line text = some (tokenize line text) := by
  obtain ⟨-, hread⟩ := Token.yields_cuts text
  unfold tokenizeBytes?
  rw [hread]
  rfl

end ContractVM.Assembly
