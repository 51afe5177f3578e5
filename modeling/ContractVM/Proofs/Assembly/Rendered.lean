import ContractVM.Proofs.Assembly.Cuts

/-! # Reading rendered lines

    A line is rendered by writing tokens one after another, with separators between them, and
    perhaps in front of them and behind them.

    * **Tokens** are found again, however they are separated, if each of them is spelled like one.
    * **Columns** say how many bytes stand in front of a token.
    * **Slices**: in every line, rendered or not, tokens are cut out between characters. -/

namespace ContractVM.Assembly

namespace Token

/-! ## Section 1: Rendering -/

/-- A token of a rendered line, and the separators in front of it. -/
structure Piece where
  gap : String
  text : String
  deriving DecidableEq, Repr

/-- Does the text consist of separators? -/
def IsGap (gap : String) : Prop :=
  ∀ c ∈ gap.toList, isSeparator c = true

/-- The pieces in a row, with more separators behind them. -/
def rendered : List Piece → String → String
  | [], last => last
  | piece :: pieces, last => piece.gap ++ piece.text ++ rendered pieces last

/-- The tokens of the pieces, which follow the text `before` in their line. -/
def placed (before : String) : List Piece → List Token
  | [] => []
  | piece :: pieces =>
    ⟨piece.text, (before ++ piece.gap).utf8ByteSize + 1⟩ ::
      placed (before ++ piece.gap ++ piece.text) pieces

/-! ## Section 2: Reading -/

/-- Separators are passed over. -/
theorem scan_separators (position : Nat) {cs : List Char} (hcs : ∀ c ∈ cs, isSeparator c = true)
    (rest : List Char) :
    scan position .between (cs ++ rest) = scan (position + width cs) .between rest := by
  induction cs generalizing position with
  | nil => rfl
  | cons c cs ih =>
    have hsep : isSeparator c = true := hcs c List.mem_cons_self
    have hhash := isSeparator_ne_hash hsep
    have hcs' := ih (position + 1) fun d hd => hcs d (List.mem_cons_of_mem c hd)
    rw [List.cons_append, scan, if_neg hhash, if_pos hsep, hcs', width,
      utf8Size_of_isSeparator hsep, Nat.add_assoc]

theorem scan_gap (position : Nat) {gap : String} (hgap : IsGap gap) (rest : List Char) :
    scan position .between (gap.toList ++ rest) =
      scan (position + gap.utf8ByteSize) .between rest := by
  rw [scan_separators position hgap, width_toList]

/-- Behind a token there are separators, unless the line ends there. -/
theorem endsToken_rendered {pieces : List Piece} {last : String}
    (hpieces : ∀ piece ∈ pieces, IsGap piece.gap ∧ piece.gap ≠ "") (hlast : IsGap last) :
    EndsToken (rendered pieces last).toList := by
  intro c hc
  cases pieces with
  | nil => exact hlast c (List.mem_of_mem_head? hc)
  | cons piece pieces =>
    obtain ⟨hgap, hne⟩ := hpieces piece List.mem_cons_self
    obtain ⟨d, ds, hgaplist⟩ := List.exists_cons_of_ne_nil (mt String.toList_eq_nil_iff.mp hne)
    rw [rendered, String.append_assoc, String.toList_append, hgaplist] at hc
    cases hc
    apply hgap
    rw [hgaplist]
    exact List.mem_cons_self

/-- The pieces are read from where the text `before` ends.  Each token is spelled like one and has
    separators behind it, so it is read as it is, and the others are read from its end. -/
theorem scan_rendered {pieces : List Piece} {last : String}
    (hpieces : ∀ piece ∈ pieces, IsGap piece.gap ∧ Spelled piece.text)
    (hgaps : ∀ piece ∈ pieces.tail, piece.gap ≠ "") (hlast : IsGap last) (before : String) :
    scan before.utf8ByteSize .between (rendered pieces last).toList =
      .ok (placed before pieces) := by
  induction pieces generalizing before with
  | nil =>
    have hend := scan_gap before.utf8ByteSize hlast []
    rw [List.append_nil] at hend
    exact hend
  | cons piece pieces ih =>
    obtain ⟨hgap, htext⟩ := hpieces piece List.mem_cons_self
    have hrest : ∀ piece ∈ pieces, IsGap piece.gap ∧ Spelled piece.text :=
      fun p hp => hpieces p (List.mem_cons_of_mem piece hp)
    have hend : EndsToken (rendered pieces last).toList :=
      endsToken_rendered (fun p hp => ⟨(hrest p hp).1, hgaps p hp⟩) hlast
    have hbehind := ih hrest (fun p hp => hgaps p (List.mem_of_mem_tail hp))
      (before ++ piece.gap ++ piece.text)
    rw [rendered, String.append_assoc, String.toList_append, String.toList_append,
      scan_gap _ hgap, scan_spelled _ htext hend, ← String.utf8ByteSize_append,
      ← String.utf8ByteSize_append, hbehind]
    rfl

end Token

open Token in
/-- **Lines are cut into the tokens that they were rendered from.**  Take any tokens, each of them
    spelled in plain characters without blanks at its ends, or in quotes.  What stands in quotes are
    characters other than quotes and backslashes, and pairs of a backslash and any character.  Write
    the tokens in a row, with separators between them and perhaps at the ends.  Then the tokens of
    that line are these, and the column of each of them is one more than the number of bytes in
    front of it.

    Every line, whether or not it was rendered so, can be cut by its bytes: each slice that is taken
    starts and ends between characters, and the result is the one of reading its characters. -/
theorem rendered_lines_are_read_back (number : Nat) :
    (∀ (pieces : List Piece) last, (∀ piece ∈ pieces, IsGap piece.gap ∧ Spelled piece.text) →
      (∀ piece ∈ pieces.tail, piece.gap ≠ "") → IsGap last →
      tokenize number (rendered pieces last) = .ok (placed "" pieces)) ∧
    (∀ line, ∀ slice ∈ (cuts line).slices, slice.Fits line) ∧
    (∀ line, tokenizeBytes? number line = some (tokenize number line)) := by
  refine ⟨?rendered, fun line => (yields_cuts line).fits, tokenizeBytes?_eq number⟩
  case rendered =>
    intro pieces last hpieces hgaps hlast
    exact tokenize_eq_ok (scan_rendered hpieces hgaps hlast "")

open Token in
/-- A line with a backslash in front of a character of two bytes, another one in front of a quote,
    and a separator and a number sign inside quotes. -/
theorem accented_line_is_read_back :
    tokenize 1 "\tLOAD r0, \"\\é \\\"#\" " =
      .ok [⟨"LOAD", 2⟩, ⟨"r0", 7⟩, ⟨"\"\\é \\\"#\"", 11⟩] ∧
    (cuts "\tLOAD r0, \"\\é \\\"#\" ").slices = [⟨1, 5, 2⟩, ⟨6, 8, 7⟩, ⟨10, 19, 11⟩] ∧
    (∀ slice ∈ (cuts "\tLOAD r0, \"\\é \\\"#\" ").slices,
      slice.Fits "\tLOAD r0, \"\\é \\\"#\" ") := by
  obtain ⟨hread, hfits, -⟩ := rendered_lines_are_read_back 1
  have hgap : ∀ {gap : String}, gap.toList.all isSeparator = true → IsGap gap := List.all_eq_true.mp
  have hquoted : Spelled "\"\\é \\\"#\"" := by
    have hbody : Enclosed ['\\', 'é', ' ', '\\', '"', '#'] :=
      .hidden 'é' (.plain (by decide) (by decide)
        (.hidden '"' (.plain (by decide) (by decide) .nil)))
    exact .quoted hbody
  have hpieces : ∀ piece ∈ [Piece.mk "\t" "LOAD", ⟨" ", "r0"⟩, ⟨", ", "\"\\é \\\"#\""⟩],
      IsGap piece.gap ∧ Spelled piece.text := by
    simp only [List.forall_mem_cons]
    exact ⟨⟨hgap (by decide), spelled_of_isLabelName (by decide +kernel)⟩,
      ⟨hgap (by decide), spelled_of_isLabelName (by decide +kernel)⟩,
      ⟨hgap (by decide), hquoted⟩, nofun⟩
  have hline := hread _ " " hpieces (by simp) (hgap (by decide))
  exact ⟨hline, by decide +kernel, hfits _⟩

end ContractVM.Assembly
