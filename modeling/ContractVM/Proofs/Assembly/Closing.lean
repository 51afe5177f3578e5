import ContractVM.Proofs.Assembly.Labels

/-! # Sources that are closed by `RET`

    A source can be closed: a line with `RET` is put behind it.  What this changes in its
    script is one instruction at the end of the code, and its source line:

    * **Lines**: a carriage return at the very end of the source becomes part of a line break,
      and a source that is empty or ends in a line break gets an empty line.  Neither matters
      to the items.
    * **Both passes** treat all items before the last one as they did without it.
    * **Source lines** are found by bisection, which does not see an entry behind the offset
      that it looks for. -/

namespace ContractVM

/-! ## Section 1: Lines of a source that is closed -/

namespace Text

/-- The lines differ in a carriage return at the very end, or in an empty line behind it, if
    they differ at all. -/
def EndLike (ls ls' : List (List Char)) : Prop :=
  ls' = ls ++ [[]] ∨
    ∃ front last, (ls = front ++ [last] ∨ ls = front ++ [last ++ ['\r']]) ∧ ls' = front ++ [last]

theorem EndLike.cons {ls ls' : List (List Char)} (h : EndLike ls ls') (line : List Char) :
    EndLike (line :: ls) (line :: ls') := by
  rcases h with rfl | ⟨front, last, hls, rfl⟩
  · exact .inl rfl
  · refine .inr ⟨line :: front, last, ?_, rfl⟩
    rcases hls with rfl | rfl
    · exact .inl rfl
    · exact .inr rfl

/-- A character that ends no line is put in front of the first line. -/
theorem splitLines_cons {c : Char} {rest : List Char} (hbreak : c ≠ '\n')
    (hreturn : c = '\r' → rest.head? ≠ some '\n') :
    splitLines (c :: rest) = match splitLines rest with
      | [] => [[c]]
      | line :: lines => (c :: line) :: lines := by
  have hpair : ∀ tail, c = '\r' → rest = '\n' :: tail → False := by
    rintro tail rfl rfl
    exact hreturn rfl rfl
  exact splitLines.eq_4 c rest hbreak hpair

theorem splitLines_ne_nil {cs : List Char} (h : cs ≠ []) : splitLines cs ≠ [] := by
  unfold splitLines
  split
  · exact absurd rfl h
  · exact List.cons_ne_nil _ _
  · exact List.cons_ne_nil _ _
  · split
    · exact List.cons_ne_nil _ _
    · exact List.cons_ne_nil _ _

/-- The lines of two texts with a line break between them. -/
theorem splitLines_append_break (cs rest : List Char) :
    ∃ front, splitLines (cs ++ '\n' :: rest) = front ++ splitLines rest ∧
      EndLike (splitLines cs) front := by
  fun_induction splitLines cs with
  | case1 => exact ⟨[[]], rfl, .inl rfl⟩
  | case2 cs ih =>
    obtain ⟨front, hfront, hlike⟩ := ih
    exact ⟨[] :: front, congrArg ([] :: ·) hfront, hlike.cons []⟩
  | case3 cs ih =>
    obtain ⟨front, hfront, hlike⟩ := ih
    exact ⟨[] :: front, congrArg ([] :: ·) hfront, hlike.cons []⟩
  | case4 c cs hbreak hreturn hnone _ =>
    -- the last character of the text
    obtain rfl : cs = [] := by
      by_contra hne
      exact splitLines_ne_nil hne hnone
    by_cases hc : c = '\r'
    · subst hc
      exact ⟨[[]], rfl, .inr ⟨[], [], .inr rfl, rfl⟩⟩
    · refine ⟨[[c]], ?_, .inr ⟨[], [c], .inl rfl, rfl⟩⟩
      rw [List.singleton_append, splitLines_cons hbreak fun h => absurd h hc]
      rfl
  | case5 c cs hbreak hreturn line lines hlines ih =>
    obtain ⟨front, hfront, hlike⟩ := ih
    rw [hlines] at hlike
    have hne : cs ≠ [] := by
      rintro rfl
      cases hlines
    have hhead : c = '\r' → (cs ++ '\n' :: rest).head? ≠ some '\n' := by
      rintro rfl hnext
      cases cs with
      | nil => exact hne rfl
      | cons d cs =>
        cases hnext
        exact hreturn cs rfl rfl
    -- the character belongs to the first line, before and after
    have hfirst : ∃ line' lines', front = line' :: lines' ∧
        EndLike ((c :: line) :: lines) ((c :: line') :: lines') := by
      rcases hlike with rfl | ⟨init, last, hls, rfl⟩
      · exact ⟨line, lines ++ [[]], rfl, .inl rfl⟩
      · cases init with
        | nil =>
          refine ⟨last, [], rfl, .inr ⟨[], c :: last, ?_, rfl⟩⟩
          rcases hls with heq | heq
          · cases heq
            exact .inl rfl
          · cases heq
            exact .inr rfl
        | cons line' init =>
          refine ⟨line', init ++ [last], rfl, .inr ⟨(c :: line') :: init, last, ?_, rfl⟩⟩
          rcases hls with heq | heq
          · cases heq
            exact .inl rfl
          · cases heq
            exact .inr rfl
    obtain ⟨line', lines', rfl, hlike'⟩ := hfirst
    refine ⟨(c :: line') :: lines', ?_, hlike'⟩
    rw [List.cons_append, splitLines_cons hbreak hhead, hfront]
    rfl

/-! ## Section 2: A carriage return at the end of a line -/

theorem trimEnd_append_blank (cs : List Char) {b : Char} (hb : isBlank b = true) :
    trimEnd (cs ++ [b]) = trimEnd cs := by
  unfold trimEnd
  rw [List.reverse_append, List.reverse_singleton, List.singleton_append,
    List.dropWhile_cons_of_pos hb]

theorem trim_append_blank (cs : List Char) {b : Char} (hb : isBlank b = true) :
    trim (cs ++ [b]) = trim cs := by
  unfold trim
  rw [List.dropWhile_append]
  split
  · next hempty =>
    rw [List.isEmpty_iff.mp hempty, List.dropWhile_cons_of_pos hb, List.dropWhile_nil]
  · exact trimEnd_append_blank _ hb

end Text

namespace Assembly

namespace Token

/-- A blank at the end of a token is not part of it. -/
theorem Partial.finish_add (p : Partial) {b : Char} (hb : Text.isBlank b = true) :
    (p.add b).finish = p.finish := by
  unfold finish add
  rw [List.reverse_cons, Text.trim_append_blank _ hb]

/-- A carriage return at the end of a line is not seen. -/
theorem scan_append_return (position : Nat) (mode : Mode) (cs : List Char) :
    scan position mode (cs ++ ['\r']) = scan position mode cs := by
  have hblank : Text.isBlank '\r' = true := by decide
  fun_induction scan position mode cs with
  | case1 position => rfl
  | case2 position p => exact congrArg Except.ok (p.finish_add hblank)
  | case3 position p => rfl
  | case4 position p d rest ih => exact ih
  | case5 position p c rest hescape ih =>
    by_cases hlast : c = '\\' ∧ rest = []
    · -- a backslash at the end hides the carriage return, but the quote stays open
      obtain ⟨rfl, rfl⟩ := hlast
      rfl
    · rw [List.cons_append, scan, ih]
      rintro d tail rfl hrest
      cases rest with
      | nil => exact hlast ⟨rfl, rfl⟩
      | cons e rest => exact hescape e rest rfl rfl
  | case6 position rest =>
    rw [List.cons_append, scan, if_pos rfl]
  | case7 position c rest hhash hsep ih =>
    rw [List.cons_append, scan, if_neg hhash, if_pos hsep, ih]
  | case8 position c rest hhash hsep p ih =>
    rw [List.cons_append, scan, if_neg hhash, if_neg hsep]
    exact ih
  | case9 position p rest =>
    have hcomment := Partial.finish_add ⟨p.column, rest.reverse ++ '#' :: p.read⟩ hblank
    rw [List.cons_append, scan, if_pos rfl, List.reverse_append]
    exact congrArg Except.ok hcomment
  | case10 position p c rest hhash hsep ih =>
    rw [List.cons_append, scan, if_neg hhash, if_pos hsep, ih]
  | case11 position p c rest hhash hsep ih =>
    rw [List.cons_append, scan, if_neg hhash, if_neg hsep]
    exact ih

end Token

/-! ## Section 3: Items of a source that is closed -/

theorem items_append_return (number : Nat) (cs : List Char) :
    SourceLine.items ⟨number, String.ofList (cs ++ ['\r'])⟩ =
      SourceLine.items ⟨number, String.ofList cs⟩ := by
  unfold SourceLine.items tokenize
  simp only [String.toList_ofList, Token.scan_append_return]

theorem numbered_append (first : Nat) (xs ys : List String) :
    numbered first (xs ++ ys) = numbered first xs ++ numbered (first + xs.length) ys := by
  induction xs generalizing first with
  | nil => rfl
  | cons text xs ih =>
    rw [List.cons_append, numbered, numbered, ih, List.length_cons, List.cons_append,
      Nat.add_right_comm, Nat.add_assoc]

/-- A single line has the items of that line. -/
theorem items_singleton {line : SourceLine} {its : List Item} :
    items [line] = .ok its ↔ line.items = .ok its := by
  unfold items
  simp only [items, Except.bind_eq_ok]
  constructor
  · rintro ⟨front, hfront, back, hback, heq⟩
    cases hback
    cases heq
    rw [hfront, List.append_nil]
  · intro h
    exact ⟨its, h, [], rfl, congrArg Except.ok (List.append_nil its)⟩

/-- Lines that end alike have the same items. -/
theorem items_of_endLike {ls ls' : List (List Char)} (h : Text.EndLike ls ls') {its : List Item}
    (hits : items (numbered 1 (ls.map String.ofList)) = .ok its) :
    items (numbered 1 (ls'.map String.ofList)) = .ok its := by
  rcases h with rfl | ⟨front, last, rfl | rfl, rfl⟩
  · rw [List.map_append, numbered_append]
    have hblank : items [⟨1 + (ls.map String.ofList).length, String.ofList []⟩] = .ok [] := rfl
    exact items_append.mpr ⟨its, [], hits, hblank, (List.append_nil its).symm⟩
  · exact hits
  · rw [List.map_append, numbered_append] at hits ⊢
    obtain ⟨xs, ys, hxs, hys, rfl⟩ := items_append.mp hits
    have hlast := items_singleton.mp hys
    rw [items_append_return] at hlast
    exact items_append.mpr ⟨xs, ys, hxs, items_singleton.mpr hlast, rfl⟩

/-- The items of a source that is closed: one `RET` behind all others. -/
theorem items_closed {source : String} {own : List Item}
    (hown : items (numbered 1 (Text.lines source)) = .ok own) :
    ∃ line, line ≠ 0 ∧ items (numbered 1 (Text.lines (source ++ "\nRET"))) =
      .ok (own ++ [.statement ⟨line, 1, ⟨.ret, ()⟩⟩]) := by
  obtain ⟨front, hfront, hlike⟩ := Text.splitLines_append_break source.toList "RET".toList
  have hlines : Text.lines (source ++ "\nRET") = front.map String.ofList ++ ["RET"] := by
    have htext : (source ++ "\nRET").toList = source.toList ++ '\n' :: "RET".toList := by
      rw [String.toList_append]
      rfl
    unfold Text.lines
    rw [htext, hfront, List.map_append]
    rfl
  have htokens : ∀ line, tokenize line "RET" = .ok [⟨"RET", 1⟩] := by
    intro line
    exact tokenize_eq_ok rfl
  have hparse : parseInstr ⟨"RET", 1⟩ [] = .ok ⟨.ret, ()⟩ :=
    parseInstr_eq_ok (by decide +kernel) rfl rfl
  have hret : items [⟨1 + (front.map String.ofList).length, "RET"⟩] =
      .ok [.statement ⟨1 + (front.map String.ofList).length, 1, ⟨.ret, ()⟩⟩] :=
    items_cons_statement ⟨_, "RET"⟩ (htokens _) (by decide) (by decide) hparse rfl
  refine ⟨1 + (front.map String.ofList).length, by omega, ?_⟩
  rw [hlines, numbered_append]
  exact items_append.mpr ⟨own, _, items_of_endLike hlike hown, hret, rfl⟩

/-! ## Section 4: Scripts of sources that are closed -/

end Assembly

/-- The script with `RET` behind its code, which stands in a line of its source. -/
def Script.closed (s : Script) (line : UInt32) : Script :=
  { s with
    code := s.code ++ (⟨.ret, ()⟩ : Instr UInt32).encode
    debug := s.debug.map fun d =>
      { d with lines := d.lines ++ [(UInt32.ofNat s.code.size, line)] } }

namespace Assembly

/-- What both passes make of lines, in terms of their items. -/
theorem layout_eq_ok {lines : List SourceLine} {script : Script} :
    layout lines = .ok script ↔
      ∃ its draft image, items lines = .ok its ∧ Draft.Takes .empty its draft ∧
        draft.statements.reverse.foldlM (Image.place draft.labels) .empty = .ok image ∧
        script = ⟨image.code, draft.methods.reverse,
          some ⟨sortedLabels draft.labels, image.lines.reverse⟩⟩ := by
  unfold layout
  simp only [Except.bind_eq_ok, Draft.foldlM_addLine_eq_ok]
  constructor
  · rintro ⟨draft, ⟨its, hits, htakes⟩, image, himage, heq⟩
    cases heq
    exact ⟨its, draft, image, hits, htakes, himage, rfl⟩
  · rintro ⟨its, draft, image, hits, htakes, himage, rfl⟩
    exact ⟨draft, ⟨its, hits, htakes⟩, image, himage, rfl⟩

/-- The second pass places as much code as the first one measured. -/
theorem size_eq_of_place {its : List Item} {draft : Draft} {image : Image}
    (htakes : Draft.Takes .empty its draft)
    (himage : draft.statements.reverse.foldlM (Image.place draft.labels) .empty = .ok image) :
    draft.size = image.code.size := by
  have hstatements := htakes.statements_eq
  rw [Draft.empty, List.append_nil] at hstatements
  rw [hstatements, List.reverse_reverse] at himage
  obtain ⟨placed, hplaced, hcode⟩ := foldlM_place_eq_ok himage
  rw [htakes.size_eq, codeLength_eq_length hplaced, ← Array.length_toList, hcode]
  simp [Draft.empty, Image.empty]

theorem Draft.Takes.unique {d d₁ d₂ : Draft} {its : List Item} (h₁ : Takes d its d₁)
    (h₂ : Takes d its d₂) : d₁ = d₂ := by
  induction h₁ with
  | nil d =>
    cases h₂
    rfl
  | cons _ _ ih =>
    cases h₂ with
    | cons _ ht => exact ih ht

/-- A `RET` behind all other items is placed behind their code, if there is room. -/
theorem layout_closed {lines lines' : List SourceLine} {its : List Item} {line : Nat}
    {script script' : Script} (hline : line ≠ 0) (hits : items lines = .ok its)
    (hits' : items lines' = .ok (its ++ [.statement ⟨line, 1, ⟨.ret, ()⟩⟩]))
    (h : layout lines = .ok script) :
    layout lines' = .ok script' ↔
      script.code.size + 1 < UInt32.size ∧ script' = script.closed (UInt32.ofNat line) := by
  obtain ⟨its₁, draft, image, hits₁, htakes, himage, rfl⟩ := layout_eq_ok.mp h
  cases hits.symm.trans hits₁
  have hsize := size_eq_of_place htakes himage
  have hlength : (⟨.ret, ()⟩ : Instr Address).encodedLength = 1 := rfl
  let last : Statement := ⟨line, 1, ⟨.ret, ()⟩⟩
  -- the draft that has taken one more instruction, and the image with it
  have hplace : (draft.add (.statement last)).statements.reverse.foldlM
      (Image.place draft.labels) .empty =
        .ok ⟨image.code ++ (⟨.ret, ()⟩ : Instr UInt32).encode,
          (UInt32.ofNat image.code.size, UInt32.ofNat line) :: image.lines⟩ := by
    show (last :: draft.statements).reverse.foldlM (Image.place draft.labels) .empty = _
    rw [List.reverse_cons, List.foldlM_append, himage]
    show (do
      let image ← Image.place draft.labels image last
      pure image) = _
    have hresolve : last.instr.mapAddress (Address.resolve draft.labels) = .ok ⟨.ret, ()⟩ := rfl
    unfold Image.place
    rw [hresolve]
    simp [last, hline]
  rw [layout_eq_ok]
  constructor
  · rintro ⟨its', draft', image', hits'', htakes', himage', rfl⟩
    cases hits'.symm.trans hits''
    obtain ⟨draft₁, htakes₁, hlast⟩ := Draft.takes_append.mp htakes'
    cases htakes.unique htakes₁
    obtain ⟨haccepts, rfl⟩ := Draft.takes_singleton.mp hlast
    cases himage'.symm.trans hplace
    refine ⟨?_, ?_⟩
    · rw [← hsize]
      exact haccepts
    · simp [Script.closed, Draft.add]
  · rintro ⟨hroom, rfl⟩
    rw [← hsize] at hroom
    refine ⟨_, draft.add (.statement last), _, hits',
      Draft.takes_append.mpr ⟨draft, htakes, ?_⟩, hplace, ?_⟩
    · exact Draft.takes_singleton.mpr ⟨hroom, rfl⟩
    · simp [Script.closed, Draft.add]

theorem publicOf_append_statement (its : List Item) (s : Statement) :
    publicOf (its ++ [.statement s]) = publicOf its := by
  induction its with
  | nil => rfl
  | cons item its ih =>
    rw [List.cons_append]
    cases item with
    | label l => rw [publicOf_label, publicOf_label, ih]
    | statement s' => rw [publicOf_statement, publicOf_statement, ih]

/-- A source that is closed is assembled if there is room for one more byte of code, and then
    to the script with `RET` behind its code. -/
theorem assemble_closed {source : String} {script : Script} (h : assemble source = .ok script) :
    ∃ line, ∀ script', assemble (source ++ "\nRET") = .ok script' ↔
      script.code.size + 1 < UInt32.size ∧ script' = script.closed line := by
  unfold assemble at h ⊢
  obtain ⟨names, hnames, hlayout⟩ := Except.bind_eq_ok.mp h
  obtain ⟨program, draft, image, hprogram, -⟩ := layout_eq_ok.mp hlayout
  obtain ⟨generated, own, hgenerated, hown, rfl⟩ := items_append.mp hprogram
  obtain ⟨line, hline, hclosed⟩ := items_closed hown
  cases hnames.symm.trans (publicNames_of_items hown)
  have hnames' := publicNames_of_items hclosed
  -- the last line has no label, so the dispatcher is the same
  rw [publicOf_append_statement] at hnames'
  have hitems : items (dispatcher (publicOf own) ++ _) = .ok (generated ++ own ++ _) :=
    items_append.mpr ⟨generated, _, hgenerated, hclosed, List.append_assoc _ _ _⟩
  refine ⟨UInt32.ofNat line, ?_⟩
  intro script'
  show (publicNames _ >>= fun names => layout (dispatcher names ++ _)) = _ ↔ _
  rw [hnames']
  exact layout_closed hline hprogram hitems hlayout

/-! ## Section 5: Source lines -/

/-- The table of lines goes from the last place back to the first, all inside the code. -/
structure Image.Ordered (image : Image) : Prop where
  descending : image.lines.Pairwise fun a b => b.1.toNat < a.1.toNat
  inside : ∀ a ∈ image.lines, a.1.toNat < image.code.size

theorem Image.Ordered.place {labels : List (String × Nat)} {image image' : Image} {s : Statement}
    (h : image.Ordered) (hsize : image.code.size < UInt32.size)
    (hplace : image.place labels s = .ok image') : image'.Ordered := by
  unfold Image.place at hplace
  split at hplace
  · cases hplace
  · next i hi =>
    cases hplace
    have hpos : 0 < i.encode.length := by
      rw [i.length_encode]
      exact i.encodedLength_pos
    have hgrows : image.code.size < (image.code ++ i.encode).size := by
      rw [← Array.length_toList, ← Array.length_toList, Array.toList_appendList,
        List.length_append]
      omega
    have hinside : ∀ a ∈ image.lines, a.1.toNat < (image.code ++ i.encode).size :=
      fun a ha => Nat.lt_trans (h.inside a ha) hgrows
    split
    · exact ⟨h.descending, hinside⟩
    · -- the new place is the end of the code so far
      have hplace : (UInt32.ofNat image.code.size).toNat = image.code.size := by
        rw [UInt32.toNat_ofNat', Nat.mod_eq_of_lt hsize]
      refine ⟨List.pairwise_cons.mpr ⟨?_, h.descending⟩, ?_⟩
      · intro a ha
        rw [hplace]
        exact h.inside a ha
      · intro a ha
        rcases List.mem_cons.mp ha with rfl | ha
        · rw [hplace]
          exact hgrows
        · exact hinside a ha

theorem Image.Ordered.foldlM_place {labels : List (String × Nat)} {ss : List Statement}
    {image image' : Image} (h : image.Ordered) (hsize : image'.code.size < UInt32.size)
    (hplace : ss.foldlM (Image.place labels) image = .ok image') : image'.Ordered := by
  induction ss generalizing image with
  | nil =>
    cases hplace
    exact h
  | cons s ss ih =>
    have hgrows : image.code.size ≤ image'.code.size := by
      obtain ⟨placed, -, hcode⟩ := foldlM_place_eq_ok hplace
      rw [← Array.length_toList, ← Array.length_toList, hcode, List.length_append]
      exact Nat.le_add_right _ _
    rw [List.foldlM_cons, Except.bind_eq_ok] at hplace
    obtain ⟨image₁, hfirst, hrest⟩ := hplace
    exact ih (h.place (Nat.lt_of_le_of_lt hgrows hsize) hfirst) hrest

/-- The table of lines of a script goes from the first place to the last. -/
theorem assemble_lines_ascending {source : String} {script : Script}
    (h : assemble source = .ok script) {debug : DebugInfo} (hdebug : script.debug = some debug) :
    debug.lines.Pairwise fun a b => a.1.toNat < b.1.toNat := by
  obtain ⟨own, placed, -, hlaid⟩ := assemble_laidOut h
  unfold assemble at h
  obtain ⟨names, -, hlayout⟩ := Except.bind_eq_ok.mp h
  obtain ⟨program, draft, image, -, -, himage, rfl⟩ := layout_eq_ok.mp hlayout
  cases hdebug
  have hempty : Image.Ordered .empty := ⟨.nil, fun _ ha => absurd ha List.not_mem_nil⟩
  exact List.pairwise_reverse.mpr (hempty.foldlM_place hlaid.size_lt himage).descending

end Assembly

/-- If a test holds for a front part of the elements, bisection finds its end. -/
theorem bisect_eq {test : Nat → Bool} {base size k : Nat} (hk : k ≤ size)
    (hfront : ∀ i < k, test (base + i) = true)
    (hback : ∀ i, k ≤ i → i < size → test (base + i) = false) :
    bisect test base size = base + k := by
  induction size using Nat.strongRecOn generalizing base k with
  | ind size ih =>
    rw [bisect]
    split
    · next hsmall =>
      -- at most one element is left
      by_cases hone : size = 1 ∧ k = 1
      · obtain ⟨rfl, rfl⟩ := hone
        have htest := hfront 0 (by omega)
        rw [Nat.add_zero] at htest
        rw [htest]
        rfl
      · obtain rfl : k = 0 := by omega
        by_cases hone : size = 1
        · subst hone
          have htest := hback 0 (Nat.le_refl _) (by omega)
          rw [Nat.add_zero] at htest
          rw [htest]
          rfl
        · rw [if_neg (by simp [hone])]
          rfl
    · next hlarge =>
      dsimp only
      by_cases hhalf : size / 2 < k
      · -- the end lies behind the middle
        rw [hfront (size / 2) hhalf, if_pos rfl]
        have hrest : bisect test (base + size / 2) (size - size / 2) =
            base + size / 2 + (k - size / 2) := by
          apply ih (size - size / 2) (by omega) (by omega)
          · intro i hi
            rw [Nat.add_assoc]
            exact hfront _ (by omega)
          · intro i hki hi
            rw [Nat.add_assoc]
            exact hback _ (by omega) (by omega)
        rw [hrest]
        omega
      · rw [hback (size / 2) (by omega) (by omega), if_neg Bool.false_ne_true]
        exact ih (size - size / 2) (by omega) (by omega) hfront fun i hki hi =>
          hback i hki (by omega)

/-- The line of an offset is that of the last entry up to it. -/
theorem DebugInfo.lineFor_eq {d : DebugInfo} {front back : List (UInt32 × UInt32)} {offset : Nat}
    (hlines : d.lines = front ++ back) (hfront : ∀ a ∈ front, a.1.toNat ≤ offset)
    (hback : ∀ a ∈ back, offset < a.1.toNat) :
    d.lineFor offset =
      if offset < UInt32.size then front.getLast?.map Prod.snd else none := by
  have hget : ∀ i : Nat, d.lines.toArray[i]? = (front ++ back)[i]? := by
    intro i
    rw [hlines, List.getElem?_toArray]
  have hsize : d.lines.toArray.size = front.length + back.length := by
    rw [hlines, List.size_toArray, List.length_append]
  have hbisect : bisect (fun i => d.lines.toArray[i]?.any fun line => line.1.toNat ≤ offset) 0
      d.lines.toArray.size = front.length := by
    rw [bisect_eq (k := front.length) (by omega), Nat.zero_add]
    · intro i hi
      rw [Nat.zero_add, hget, List.getElem?_append_left hi, List.getElem?_eq_getElem hi]
      exact decide_eq_true (hfront _ (List.getElem_mem hi))
    · intro i hki hi
      have hin : i - front.length < back.length := by omega
      rw [Nat.zero_add, hget, List.getElem?_append_right hki, List.getElem?_eq_getElem hin]
      exact decide_eq_false (Nat.not_le.mpr (hback _ (List.getElem_mem hin)))
  unfold lineFor
  dsimp only
  rw [hbisect]
  split
  · split
    · next hnone =>
      rw [List.eq_nil_of_length_eq_zero hnone]
      rfl
    · next i hlen =>
      have hi : i < front.length := by omega
      rw [hget, List.getElem?_append_left hi, List.getLast?_eq_getElem?, hlen]
      rfl
  · rfl

/-- In a table that goes from the first place to the last, the entries up to an offset stand
    in front of the others. -/
theorem exists_split_at {lines : List (UInt32 × UInt32)}
    (h : lines.Pairwise fun a b => a.1.toNat < b.1.toNat) (offset : Nat) :
    ∃ front back, lines = front ++ back ∧ (∀ a ∈ front, a.1.toNat ≤ offset) ∧
      ∀ a ∈ back, offset < a.1.toNat := by
  induction lines with
  | nil =>
    exact ⟨[], [], rfl, fun _ ha => absurd ha List.not_mem_nil,
      fun _ ha => absurd ha List.not_mem_nil⟩
  | cons line lines ih =>
    obtain ⟨hline, hrest⟩ := List.pairwise_cons.mp h
    by_cases hle : line.1.toNat ≤ offset
    · obtain ⟨front, back, rfl, hfront, hback⟩ := ih hrest
      refine ⟨line :: front, back, rfl, ?_, hback⟩
      intro a ha
      rcases List.mem_cons.mp ha with rfl | ha
      · exact hle
      · exact hfront a ha
    · refine ⟨[], line :: lines, rfl, fun _ ha => absurd ha List.not_mem_nil, ?_⟩
      intro a ha
      rcases List.mem_cons.mp ha with rfl | ha
      · exact Nat.lt_of_not_le hle
      · exact Nat.lt_trans (Nat.lt_of_not_le hle) (hline a ha)

/-- A `RET` behind the code does not change the lines of offsets in the code. -/
theorem Assembly.lineFor_closed {source : String} {script : Script}
    (h : assemble source = .ok script) (line : UInt32) {offset : Nat}
    (hin : offset < script.code.size) :
    (script.closed line).lineFor offset = script.lineFor offset := by
  obtain ⟨own, placed, -, hlaid⟩ := assemble_laidOut h
  obtain ⟨debug, hdebug, -⟩ := hlaid.labels
  obtain ⟨front, back, hlines, hfront, hback⟩ :=
    exists_split_at (assemble_lines_ascending h hdebug) offset
  have hplace : (UInt32.ofNat script.code.size).toNat = script.code.size := by
    rw [UInt32.toNat_ofNat', Nat.mod_eq_of_lt hlaid.size_lt]
  have hback' : ∀ a ∈ back ++ [(UInt32.ofNat script.code.size, line)], offset < a.1.toNat := by
    intro a ha
    rcases List.mem_append.mp ha with ha | ha
    · exact hback a ha
    · rw [List.mem_singleton.mp ha, hplace]
      exact hin
  have hlines' : debug.lines ++ [(UInt32.ofNat script.code.size, line)] =
      front ++ (back ++ [(UInt32.ofNat script.code.size, line)]) := by
    rw [hlines, List.append_assoc]
  unfold Script.lineFor Script.closed
  rw [hdebug, Option.map_some, Option.bind_some, Option.bind_some,
    DebugInfo.lineFor_eq hlines hfront hback, DebugInfo.lineFor_eq hlines' hfront hback']

end ContractVM
