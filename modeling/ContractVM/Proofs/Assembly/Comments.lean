import ContractVM.Proofs.Assembly.Tokens

/-! # Comments

    A number sign outside quotes begins a comment.  What the scanner makes of it depends on
    where the text in front of it ends:

    * **Between tokens**, the comment is passed over.
    * **In a token**, the comment becomes part of this token, up to the end of the line.
    * **In quotes**, the number sign begins no comment at all. -/

namespace ContractVM

/-! ## Section 1: Blanks around a comment -/

namespace Text

theorem isBlank_hash : isBlank '#' = false := by decide

/-- Blanks are dropped in front of a number sign, which is none itself. -/
theorem dropWhile_append_hash (cs rest : List Char) :
    (cs ++ '#' :: rest).dropWhile isBlank = cs.dropWhile isBlank ++ '#' :: rest := by
  induction cs with
  | nil => rw [List.nil_append, List.dropWhile_cons_of_neg (by rw [isBlank_hash]; simp)]; rfl
  | cons c cs ih =>
    rw [List.cons_append]
    by_cases hblank : isBlank c = true
    · rw [List.dropWhile_cons_of_pos hblank, List.dropWhile_cons_of_pos hblank, ih]
    · rw [List.dropWhile_cons_of_neg hblank, List.dropWhile_cons_of_neg hblank]
      rfl

/-- A comment is trimmed at its end only, and so is what stands in front of it at its start. -/
theorem trim_append_hash (cs rest : List Char) :
    trim (cs ++ '#' :: rest) = cs.dropWhile isBlank ++ '#' :: trimEnd rest := by
  have hreverse : ∀ front : List Char,
      (front ++ '#' :: rest).reverse = rest.reverse ++ '#' :: front.reverse := by
    intro front
    rw [List.reverse_append, List.reverse_cons, List.append_assoc]
    rfl
  unfold trim trimEnd
  rw [dropWhile_append_hash, hreverse, dropWhile_append_hash, List.reverse_append,
    List.reverse_cons, List.reverse_reverse, List.append_assoc]
  rfl

theorem length_dropWhile_le (cs : List Char) : (cs.dropWhile isBlank).length ≤ cs.length :=
  (List.dropWhile_suffix isBlank).length_le

theorem length_trim_le (cs : List Char) : (trim cs).length ≤ (cs.dropWhile isBlank).length := by
  unfold trim trimEnd
  rw [List.length_reverse]
  exact Nat.le_trans (length_dropWhile_le _) (Nat.le_of_eq List.length_reverse)

end Text

namespace Assembly

namespace Token

/-! ## Section 2: Where a text ends -/

/-- Where the reading of a line stands. -/
inductive Standing where
  /-- Between two tokens, or in a comment that began there. -/
  | between
  /-- In a token, or in a comment that belongs to one. -/
  | inToken
  | inQuotes
  deriving DecidableEq, Repr

/-- Where the reading stands after a text.  Quotes count where they are not hidden by a
    backslash in quotes, and nothing counts in a comment. -/
def Standing.after : Standing → List Char → Standing
  | s, [] => s
  | .inQuotes, '\\' :: _ :: rest => Standing.inQuotes.after rest
  | .inQuotes, c :: rest => (if c = '"' then Standing.inToken else .inQuotes).after rest
  | .between, c :: rest =>
    if c = '#' then .between
    else if isSeparator c then Standing.between.after rest
    else (if c = '"' then Standing.inQuotes else .inToken).after rest
  | .inToken, c :: rest =>
    if c = '#' then .inToken
    else if isSeparator c then Standing.between.after rest
    else (if c = '"' then Standing.inQuotes else .inToken).after rest

def Mode.standing : Mode → Standing
  | .between => .between
  | .plain _ => .inToken
  | .quoted _ => .inQuotes

/-- The characters of the token that is being read. -/
def Mode.pending : Mode → List Char
  | .between => []
  | .plain p => p.read.reverse
  | .quoted p => p.read.reverse

/-! ## Section 3: A comment behind a text -/

/-- What the scanner makes of a text that ends at a standing, and of the text with a comment
    behind it. -/
inductive Commented (position : Nat) (mode : Mode) (cs : List Char) : Standing → Prop where
  /-- The comment is passed over. -/
  | between (tokens : List Token) (htext : scan position mode cs = .ok tokens)
    (hcomment : ∀ rest, scan position mode (cs ++ '#' :: rest) = .ok tokens) :
    Commented position mode cs .between
  /-- The comment belongs to the token at the end of the text. -/
  | inToken (front : List Token) (column : Nat) (last : List Char)
    (hlast : last <:+ mode.pending ++ cs)
    (htext : scan position mode cs = .ok (front ++ Partial.finish ⟨column, last.reverse⟩))
    (hcomment : ∀ rest, scan position mode (cs ++ '#' :: rest) =
      .ok (front ++ Partial.finish ⟨column, (last ++ '#' :: rest).reverse⟩)) :
    Commented position mode cs .inToken
  | inQuotes (column : Nat) (htext : scan position mode cs = .error column) :
    Commented position mode cs .inQuotes

/-- The scanner has some more characters behind it. -/
theorem Commented.over {position position' : Nat} {mode mode' : Mode} (seen : List Char)
    {cs : List Char} {s : Standing} (h : Commented position' mode' cs s)
    (hstep : ∀ rest, scan position mode (seen ++ (cs ++ rest)) =
      scan position' mode' (cs ++ rest))
    (hpending : mode'.pending ++ cs <:+ mode.pending ++ (seen ++ cs)) :
    Commented position mode (seen ++ cs) s := by
  have hstep' : scan position mode (seen ++ cs) = scan position' mode' cs := by
    have hnil := hstep []
    rwa [List.append_nil] at hnil
  cases h with
  | between tokens htext hcomment =>
    refine .between tokens (hstep'.trans htext) fun rest => ?_
    rw [List.append_assoc, hstep, hcomment]
  | inToken front column last hlast htext hcomment =>
    refine .inToken front column last (hlast.trans hpending) (hstep'.trans htext) fun rest => ?_
    rw [List.append_assoc, hstep, hcomment]
  | inQuotes column htext => exact .inQuotes column (hstep'.trans htext)

/-- A separator ends the token in front of it. -/
theorem Commented.separated {position : Nat} {p : Partial} {c : Char} {cs : List Char}
    {s : Standing} (hhash : c ≠ '#') (hsep : isSeparator c = true)
    (h : Commented (position + 1) .between cs s) : Commented position (.plain p) (c :: cs) s := by
  have hstep : ∀ rest, scan position (.plain p) (c :: rest) = do
      let tokens ← scan (position + 1) .between rest
      return p.finish ++ tokens := by
    intro rest
    rw [scan, if_neg hhash, if_pos hsep]
  cases h with
  | between tokens htext hcomment =>
    refine .between (p.finish ++ tokens) ?_ fun rest => ?_
    · rw [hstep, htext]
      rfl
    · rw [List.cons_append, hstep, hcomment]
      rfl
  | inToken front column last hlast htext hcomment =>
    refine .inToken (p.finish ++ front) column last ?_ ?_ ?_
    · exact (hlast.trans (List.suffix_cons c cs)).trans (List.suffix_append _ _)
    · rw [hstep, htext, List.append_assoc]
      rfl
    · intro rest
      rw [List.cons_append, hstep, hcomment, List.append_assoc]
      rfl
  | inQuotes column htext =>
    refine .inQuotes column ?_
    rw [hstep, htext]
    rfl

theorem after_inQuotes_of_ne {c : Char} (hback : c ≠ '\\') (cs : List Char) :
    Standing.inQuotes.after (c :: cs) =
      (if c = '"' then Standing.inToken else .inQuotes).after cs := by
  rw [Standing.after]
  rintro d tail rfl
  exact absurd rfl hback

theorem Partial.reverse_add (p : Partial) (c : Char) :
    (p.add c).read.reverse = p.read.reverse ++ [c] := List.reverse_cons

theorem pending_add (p : Partial) (c : Char) (rest : List Char) :
    (p.add c).read.reverse ++ rest = p.read.reverse ++ ([c] ++ rest) := by
  rw [Partial.reverse_add, List.append_assoc]

/-- A comment behind a text has the effect that the standing at the end of the text says. -/
theorem commented (position : Nat) (mode : Mode) (cs : List Char) :
    Commented position mode cs (mode.standing.after cs) := by
  fun_induction scan position mode cs with
  | case1 position => exact .between [] rfl fun rest => rfl
  | case2 position p =>
    refine .inToken [] p.column p.read.reverse ?_ ?_ ?_
    · exact ⟨[], (List.append_nil _).symm⟩
    · rw [List.reverse_reverse]
      rfl
    · intro rest
      rw [List.reverse_append, List.reverse_reverse, List.reverse_cons, List.append_assoc]
      rfl
  | case3 position p => exact .inQuotes p.column rfl
  | case4 position p d rest ih =>
    -- scanner and standing both pass over a hidden character
    refine ih.over ['\\', d] (fun _ => rfl) ?_
    exact ⟨[], (pending_add (p.add '\\') d rest).trans (pending_add p '\\' (d :: rest))⟩
  | case5 position p c rest hhidden ih =>
    by_cases hback : c = '\\'
    · -- the backslash comes last, as it hides nothing
      cases rest with
      | nil =>
        subst hback
        exact .inQuotes p.column rfl
      | cons d tail => exact absurd rfl (hhidden d tail hback)
    · have hstanding : Standing.inQuotes.after (c :: rest) =
          (if c = '"' then Mode.plain (p.add c) else .quoted (p.add c)).standing.after rest := by
        rw [after_inQuotes_of_ne hback]
        split <;> rfl
      show Commented position (.quoted p) ([c] ++ rest) (Standing.inQuotes.after (c :: rest))
      rw [hstanding]
      refine ih.over [c] (fun tail => scan_quoted_of_ne position p hback (rest ++ tail)) ?_
      split
      · exact ⟨[], pending_add p c rest⟩
      · exact ⟨[], pending_add p c rest⟩
  | case6 position rest => exact .between [] rfl fun _ => rfl
  | case7 position c rest hhash hsep ih =>
    have hstanding : Standing.between.after (c :: rest) = Standing.between.after rest := by
      rw [Standing.after, if_neg hhash, if_pos hsep]
    show Commented position .between ([c] ++ rest) (Standing.between.after (c :: rest))
    rw [hstanding]
    refine Commented.over [c] ih (fun tail => ?_) (List.suffix_cons c rest)
    show scan position .between (c :: (rest ++ tail)) = _
    rw [scan, if_neg hhash, if_pos hsep]
  | case8 position c rest hhash hsep p ih =>
    have hstanding : Standing.between.after (c :: rest) =
        (if c = '"' then Mode.quoted p else .plain p).standing.after rest := by
      rw [Standing.after, if_neg hhash, if_neg hsep]
      split <;> rfl
    show Commented position .between ([c] ++ rest) (Standing.between.after (c :: rest))
    rw [hstanding]
    refine ih.over [c] (fun tail => ?_) ?_
    · show scan position .between (c :: (rest ++ tail)) = _
      rw [scan, if_neg hhash, if_neg hsep]
    · split
      · exact List.suffix_rfl
      · exact List.suffix_rfl
  | case9 position p rest =>
    -- the text ends in a comment of its token already, which just goes on
    refine .inToken [] p.column (p.read.reverse ++ '#' :: rest) List.suffix_rfl ?_ fun tail => ?_
    · show Except.ok (Partial.finish _) = _
      rw [List.reverse_append, List.reverse_cons, List.reverse_reverse, List.append_assoc]
      rfl
    · show Except.ok (Partial.finish _) = _
      rw [List.append_assoc, List.reverse_append, List.reverse_reverse, List.cons_append,
        List.reverse_cons, List.append_assoc]
      rfl
  | case10 position p c rest hhash hsep ih =>
    have hstanding : Standing.inToken.after (c :: rest) = Standing.between.after rest := by
      rw [Standing.after, if_neg hhash, if_pos hsep]
    show Commented position (.plain p) (c :: rest) (Standing.inToken.after (c :: rest))
    rw [hstanding]
    exact Commented.separated hhash hsep ih
  | case11 position p c rest hhash hsep ih =>
    have hstanding : Standing.inToken.after (c :: rest) =
        (if c = '"' then Mode.quoted (p.add c) else .plain (p.add c)).standing.after rest := by
      rw [Standing.after, if_neg hhash, if_neg hsep]
      split <;> rfl
    show Commented position (.plain p) ([c] ++ rest) (Standing.inToken.after (c :: rest))
    rw [hstanding]
    refine ih.over [c] (fun tail => ?_) ?_
    · show scan position (.plain p) (c :: (rest ++ tail)) = _
      rw [scan, if_neg hhash, if_neg hsep]
    · split
      · exact ⟨[], pending_add p c rest⟩
      · exact ⟨[], pending_add p c rest⟩

/-! ## Section 4: Tokens with a comment -/

/-- The token that a comment belongs to has the comment as its end. -/
theorem Partial.finish_commented (column : Nat) (last rest : List Char) :
    Partial.finish ⟨column, (last ++ '#' :: rest).reverse⟩ =
      [⟨String.ofList (last.dropWhile Text.isBlank ++ '#' :: Text.trimEnd rest), column⟩] := by
  unfold finish
  rw [List.reverse_reverse, Text.trim_append_hash]
  cases last.dropWhile Text.isBlank with
  | nil => rfl
  | cons c cs => rfl

/-- So it is not what it would be without the comment. -/
theorem Partial.finish_commented_ne (column : Nat) (last rest : List Char) :
    Partial.finish ⟨column, (last ++ '#' :: rest).reverse⟩ ≠
      Partial.finish ⟨column, last.reverse⟩ := by
  rw [Partial.finish_commented]
  unfold finish
  rw [List.reverse_reverse]
  intro heq
  split at heq
  · cases heq
  · have htrim : last.dropWhile Text.isBlank ++ '#' :: Text.trimEnd rest = Text.trim last := by
      apply String.ofList_injective
      injection heq with heq
      injection heq
    have hlength := congrArg List.length htrim
    have hle := Text.length_trim_le last
    rw [List.length_append, List.length_cons] at hlength
    omega

end Token

/-- **Comments end a line between tokens, and join a token that is open.**  A text ends in quotes
    if and only if it is refused.  Where it does not, a number sign and whatever is behind it
    change nothing if and only if the text ends between tokens.  Where it ends in a token, they
    are the end of this token, and change nothing in front of it. -/
theorem comments_end_lines_between_tokens (line : Nat) (p c : String) :
    (Token.Standing.between.after p.toList = .inQuotes ↔
      ∃ column, tokenize line p = .error ⟨line, column, .unterminatedString⟩) ∧
    (Token.Standing.between.after p.toList ≠ .inQuotes →
      (tokenize line (p ++ "#" ++ c) = tokenize line p ↔
        Token.Standing.between.after p.toList = .between)) ∧
    (Token.Standing.between.after p.toList = .inToken →
      ∃ front column last, last <:+ p.toList ∧
        tokenize line p = .ok (front ++ Token.Partial.finish ⟨column, last.reverse⟩) ∧
        tokenize line (p ++ "#" ++ c) =
          .ok (front ++ [⟨String.ofList
            (last.dropWhile Text.isBlank ++ '#' :: Text.trimEnd c.toList), column⟩])) := by
  have htext : (p ++ "#" ++ c).toList = p.toList ++ '#' :: c.toList := by
    rw [String.toList_append, String.toList_append, List.append_assoc]
    rfl
  have hcommented := Token.commented 0 .between p.toList
  unfold tokenize
  rw [htext]
  generalize hstanding : Token.Standing.between.after p.toList = standing
  rw [show Token.Mode.between.standing.after p.toList = standing from hstanding] at hcommented
  -- what the text ends in decides on both sides of the equivalence
  cases hcommented with
  | between _ hplain hcomment =>
    rw [hplain, hcomment]
    refine ⟨⟨nofun, nofun⟩, fun _ => ⟨fun _ => rfl, fun _ => rfl⟩, nofun⟩
  | inToken front column last hlast hplain hcomment =>
    rw [hplain, hcomment]
    refine ⟨⟨nofun, nofun⟩, fun _ => ⟨fun heq => ?_, nofun⟩, fun _ => ?_⟩
    · injection heq with heq
      exact absurd (List.append_cancel_left heq) (Token.Partial.finish_commented_ne _ _ _)
    · refine ⟨front, column, last, hlast, rfl, ?_⟩
      rw [Token.Partial.finish_commented]
  | inQuotes column hplain =>
    rw [hplain]
    exact ⟨⟨fun _ => ⟨column, rfl⟩, fun _ => rfl⟩, fun h => absurd rfl h, nofun⟩

/-- A comment behind a blank is passed over. -/
theorem comment_behind_blank_is_passed_over :
    Token.Standing.between.after "EXTCALL Log ".toList ≠ .inQuotes ∧
    tokenize 1 ("EXTCALL Log " ++ "#" ++ "note") = tokenize 1 "EXTCALL Log " :=
  have houtside : Token.Standing.between.after "EXTCALL Log ".toList ≠ .inQuotes := by decide
  ⟨houtside, ((comments_end_lines_between_tokens 1 "EXTCALL Log " "note").2.1 houtside).mpr
    (by decide)⟩

/-- A comment behind the name of a host function becomes part of the name. -/
theorem comment_behind_name_joins_it :
    Token.Standing.between.after "EXTCALL Log".toList ≠ .inQuotes ∧
    tokenize 1 "EXTCALL Log" = .ok [⟨"EXTCALL", 1⟩, ⟨"Log", 9⟩] ∧
    tokenize 1 ("EXTCALL Log" ++ "#" ++ "note") = .ok [⟨"EXTCALL", 1⟩, ⟨"Log#note", 9⟩] ∧
    tokenize 1 ("EXTCALL Log" ++ "#" ++ "note") ≠ tokenize 1 "EXTCALL Log" := by
  have hplain : tokenize 1 "EXTCALL Log" = .ok [⟨"EXTCALL", 1⟩, ⟨"Log", 9⟩] := rfl
  have hcommented : tokenize 1 ("EXTCALL Log" ++ "#" ++ "note") =
      .ok [⟨"EXTCALL", 1⟩, ⟨"Log#note", 9⟩] := rfl
  refine ⟨by decide, hplain, hcommented, ?_⟩
  rw [hplain, hcommented]
  simp

end Assembly

end ContractVM
