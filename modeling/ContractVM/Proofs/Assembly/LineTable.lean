import ContractVM.Proofs.Assembly.Closing
import ContractVM.Proofs.Assembly.Located

/-! # The table of lines

    The second pass notes a place and a line for each instruction of the source, and nothing
    for the dispatcher.

    * **Entries**: the table is `lineTable` of the statements, entry by entry.
    * **Offsets**: the code is cut into instructions without gaps, and the entry that bisection
      finds for an offset is that of the instruction around it. -/

namespace ContractVM.Assembly

/-! ## Section 1: What the second pass notes -/

/-- The entries of statements whose code begins at `start`. -/
def lineTable (start : Nat) : List Statement → List (UInt32 × UInt32)
  | [] => []
  | s :: ss =>
    if s.line = 0 then lineTable (start + s.instr.encodedLength) ss
    else (UInt32.ofNat start, UInt32.ofNat s.line) ::
      lineTable (start + s.instr.encodedLength) ss

/-- The second pass adds the entries of its statements, the last one first. -/
theorem foldlM_place_lines {labels : List (String × Nat)} {ss : List Statement}
    {image image' : Image} (h : ss.foldlM (Image.place labels) image = .ok image') :
    image'.lines.reverse = image.lines.reverse ++ lineTable image.code.size ss := by
  induction ss generalizing image with
  | nil =>
    cases h
    exact (List.append_nil _).symm
  | cons s ss ih =>
    rw [List.foldlM_cons, Except.bind_eq_ok] at h
    obtain ⟨image₁, hplace, hrest⟩ := h
    have hlines := ih hrest
    unfold Image.place at hplace
    split at hplace
    · cases hplace
    · next i hi =>
      cases hplace
      have hlen : i.encode.length = s.instr.encodedLength := encode_length_of_resolves hi
      have hsize : (image.code ++ i.encode).size = image.code.size + s.instr.encodedLength := by
        rw [← Array.length_toList, Array.toList_appendList, List.length_append, hlen,
          Array.length_toList]
      rw [hlines, lineTable, hsize]
      by_cases hline : s.line = 0
      · rw [if_pos hline, if_pos hline]
      · rw [if_neg hline, if_neg hline, List.reverse_cons, List.append_assoc]
        rfl

/-- Added instructions have no entries. -/
theorem lineTable_added (start : Nat) (is : List (Instr Address)) (ss : List Statement) :
    lineTable start (is.map addedStatement ++ ss) =
      lineTable (start + codeLength (is.map addedStatement)) ss := by
  induction is generalizing start with
  | nil => rfl
  | cons i is ih =>
    show lineTable (start + i.encodedLength) (is.map addedStatement ++ ss) = _
    rw [ih, Nat.add_assoc]
    rfl

/-- Instructions of the source have one entry each. -/
theorem lineTable_getElem? {ss : List Statement} (hss : ∀ s ∈ ss, s.line ≠ 0) (start j : Nat) :
    (lineTable start ss)[j]? = ss[j]?.map fun s =>
      (UInt32.ofNat (start + codeLength (ss.take j)), UInt32.ofNat s.line) := by
  induction ss generalizing start j with
  | nil => rfl
  | cons s ss ih =>
    have hfirst := hss s List.mem_cons_self
    have hrest := ih fun s' hs' => hss s' (List.mem_cons_of_mem s hs')
    rw [lineTable, if_neg hfirst]
    cases j with
    | zero => rfl
    | succ j =>
      rw [List.getElem?_cons_succ, List.getElem?_cons_succ, hrest, List.take_succ_cons, codeLength,
        Nat.add_assoc]

theorem length_lineTable {ss : List Statement} (hss : ∀ s ∈ ss, s.line ≠ 0) (start : Nat) :
    (lineTable start ss).length = ss.length := by
  induction ss generalizing start with
  | nil => rfl
  | cons s ss ih =>
    rw [lineTable, if_neg (hss s List.mem_cons_self), List.length_cons, List.length_cons,
      ih fun s' hs' => hss s' (List.mem_cons_of_mem s hs')]

theorem codeLength_append (ss ss' : List Statement) :
    codeLength (ss ++ ss') = codeLength ss + codeLength ss' := by
  induction ss with
  | nil => exact (Nat.zero_add _).symm
  | cons s ss ih =>
    rw [List.cons_append, codeLength, codeLength, ih, Nat.add_assoc]

/-! ## Section 2: Offsets in the code -/

/-- Instructions are placed one behind another. -/
theorem startOf_mono (placed : List (Instr UInt32)) {j k : Nat} (h : j ≤ k) :
    startOf placed j ≤ startOf placed k := by
  -- the first `j` instructions are among the first `k`
  have hsplit := startOf_le (placed.take k) j
  unfold startOf at hsplit ⊢
  rwa [List.take_take, Nat.min_eq_left h] at hsplit

/-- The code has no gaps: every offset lies in an instruction. -/
theorem exists_instruction_at {placed : List (Instr UInt32)} {offset : Nat} (n : Nat)
    (h : offset < startOf placed n) :
    ∃ k, k < n ∧ startOf placed k ≤ offset ∧ offset < startOf placed (k + 1) := by
  induction n with
  | zero => exact absurd h (Nat.not_lt_zero _)
  | succ n ih =>
    by_cases hbefore : offset < startOf placed n
    · obtain ⟨k, hk, hin⟩ := ih hbefore
      exact ⟨k, by omega, hin⟩
    · exact ⟨n, Nat.lt_succ_self n, by omega, h⟩

/-! ## Section 3: The line of an offset -/

/-- The dispatcher of a program with these items. -/
def dispatchLength (own : List Item) : Nat :=
  (dispatch (publicOf own)).length

/-- Statements of numbered lines have the numbers of these lines. -/
theorem line_of_statement {texts : List String} {own : List Item}
    (h : items (numbered 1 texts) = .ok own) {s : Statement} (hs : s ∈ statementsOf own) :
    1 ≤ s.line ∧ ∃ text its, texts[s.line - 1]? = some text ∧
      SourceLine.items ⟨s.line, text⟩ = .ok its ∧ s ∈ statementsOf its := by
  obtain ⟨l, hl, its, hits, hs⟩ := exists_line_of_statement h hs
  obtain ⟨l', hl', hline, -⟩ := statement_pointsInto hits hs
  rw [List.mem_singleton.mp hl'] at hline
  obtain ⟨hfirst, hget⟩ := getElem?_of_mem_numbered hl
  rw [← hline] at hfirst hget
  refine ⟨hfirst, l.text, its, hget, ?_, hs⟩
  rw [hline]
  exact hits

/-- The table of an assembled script: one entry for each statement of the source, at the place
    of its instruction. -/
theorem assemble_lines {source : String} {script : Script} (h : assemble source = .ok script) :
    ∃ own placed debug, items (numbered 1 (Text.lines source)) = .ok own ∧
      LaidOut (withDispatcher own) placed script ∧ script.debug = some debug ∧
      debug.lines.length = (statementsOf own).length ∧
      ∀ j, debug.lines[j]? = (statementsOf own)[j]?.map fun s =>
        (UInt32.ofNat (startOf placed (dispatchLength own + j)), UInt32.ofNat s.line) := by
  obtain ⟨own, placed, hown, hlaid⟩ := assemble_laidOut h
  unfold assemble at h
  obtain ⟨names, hnames, hlayout⟩ := Except.bind_eq_ok.mp h
  obtain ⟨program, draft, image, hprogram, htakes, himage, rfl⟩ := layout_eq_ok.mp hlayout
  obtain ⟨own', hown', -, rfl⟩ := items_withDispatcher hnames hprogram htakes.names_valid
  cases hown.symm.trans hown'
  rw [htakes.statements_eq, Draft.empty, List.append_nil, List.reverse_reverse] at himage
  have hlines := foldlM_place_lines himage
  rw [statementsOf_withDispatcher, lineTable_added] at hlines
  have hnonzero : ∀ s ∈ statementsOf own, s.line ≠ 0 := by
    intro s hs
    have hfirst := (line_of_statement hown hs).1
    omega
  refine ⟨own, placed, _, hown, hlaid, rfl, ?_, ?_⟩
  · show image.lines.reverse.length = _
    rw [hlines]
    exact length_lineTable hnonzero _
  · intro j
    show image.lines.reverse[j]? = _
    rw [hlines]
    refine (lineTable_getElem? hnonzero _ j).trans ?_
    -- both measure the code in front of the statement
    have hstart := codeLength_eq_startOf hlaid.resolved (dispatchLength own + j)
    have hlength : ((dispatch (publicOf own)).map addedStatement).length = dispatchLength own :=
      List.length_map _
    rw [statementsOf_withDispatcher, ← hlength, List.take_length_add_append, codeLength_append,
      hlength] at hstart
    rw [← hstart]
    show _ = Option.map _ _
    congr 1
    funext s
    show (UInt32.ofNat (0 + _ + _), _) = _
    rw [Nat.zero_add]

/-- The entries at or before an offset inside instruction number `k` are those of the
    statements up to it. -/
theorem lineFor_of_instruction {own : List Item} {placed : List (Instr UInt32)} {script : Script}
    {debug : DebugInfo} (hlaid : LaidOut (withDispatcher own) placed script)
    (hdebug : script.debug = some debug)
    (hlines : ∀ j, debug.lines[j]? = (statementsOf own)[j]?.map fun s =>
      (UInt32.ofNat (startOf placed (dispatchLength own + j)), UInt32.ofNat s.line))
    {k offset : Nat} (hfirst : startOf placed k ≤ offset)
    (hlast : offset < startOf placed (k + 1)) :
    script.lineFor offset =
      (debug.lines.take (k + 1 - dispatchLength own)).getLast?.map Prod.snd := by
  have hentry : ∀ {j : Nat} {a : UInt32 × UInt32}, debug.lines[j]? = some a →
      a.1.toNat = startOf placed (dispatchLength own + j) := by
    intro j a ha
    rw [hlines] at ha
    obtain ⟨s, -, rfl⟩ := Option.map_eq_some_iff.mp ha
    exact hlaid.toNat_ofNat_startOf _
  -- the entries up to that instruction are not behind the offset, all others are
  have hfront : ∀ a ∈ debug.lines.take (k + 1 - dispatchLength own), a.1.toNat ≤ offset := by
    intro a ha
    obtain ⟨j, hj⟩ := List.mem_iff_getElem?.mp ha
    rw [List.getElem?_take] at hj
    split at hj
    · rw [hentry hj]
      exact Nat.le_trans (startOf_mono placed (by omega)) hfirst
    · cases hj
  have hback : ∀ a ∈ debug.lines.drop (k + 1 - dispatchLength own), offset < a.1.toNat := by
    intro a ha
    obtain ⟨j, hj⟩ := List.mem_iff_getElem?.mp ha
    rw [List.getElem?_drop] at hj
    rw [hentry hj]
    exact Nat.lt_of_lt_of_le hlast (startOf_mono placed (by omega))
  have hfits : offset < UInt32.size := Nat.lt_trans hlast (hlaid.startOf_lt (k + 1))
  unfold Script.lineFor
  rw [hdebug, Option.bind_some,
    DebugInfo.lineFor_eq (List.take_append_drop _ debug.lines).symm hfront hback, if_pos hfits]

/-- **The table of lines is exact.** Let a source of fewer than `2 ^ 32` lines be assembled.  Its
    code is cut into instructions without gaps: first those of the dispatcher, then those that
    the source has written.  For every offset inside an instruction of the source, `lineFor`
    gives the number of the line in which that instruction is written; for every offset inside
    the dispatcher it gives none.  The table has one entry for each instruction of the source,
    in their order, with offsets that strictly ascend. -/
theorem line_table_is_exact {source : String} {script : Script} (h : assemble source = .ok script)
    (hcount : (Text.lines source).length < UInt32.size) :
    ∃ own placed debug, items (numbered 1 (Text.lines source)) = .ok own ∧
      LaidOut (withDispatcher own) placed script ∧ script.debug = some debug ∧
      (∀ j s, (statementsOf own)[j]? = some s →
        (∃ text its, 1 ≤ s.line ∧ (Text.lines source)[s.line - 1]? = some text ∧
          SourceLine.items ⟨s.line, text⟩ = .ok its ∧ s ∈ statementsOf its) ∧
        ∃ line : UInt32, line.toNat = s.line ∧
          ∀ offset, startOf placed (dispatchLength own + j) ≤ offset →
            offset < startOf placed (dispatchLength own + j + 1) →
              script.lineFor offset = some line) ∧
      (∀ offset, offset < startOf placed (dispatchLength own) → script.lineFor offset = none) ∧
      (∀ offset, offset < script.code.size → offset < startOf placed (dispatchLength own) ∨
        ∃ j s, (statementsOf own)[j]? = some s ∧
          startOf placed (dispatchLength own + j) ≤ offset ∧
          offset < startOf placed (dispatchLength own + j + 1)) ∧
      debug.lines.length = (statementsOf own).length ∧
      (∀ j, debug.lines[j]? = (statementsOf own)[j]?.map fun s =>
        (UInt32.ofNat (startOf placed (dispatchLength own + j)), UInt32.ofNat s.line)) ∧
      debug.lines.Pairwise fun a b => a.1.toNat < b.1.toNat := by
  obtain ⟨own, placed, debug, hown, hlaid, hdebug, hlength, hlines⟩ := assemble_lines h
  have hplaced : placed.length = dispatchLength own + (statementsOf own).length := by
    rw [← hlaid.resolved.length_eq, statementsOf_withDispatcher, List.length_append,
      List.length_map]
    rfl
  refine ⟨own, placed, debug, hown, hlaid, hdebug, ?instructions, ?dispatcher, ?cover, hlength,
    hlines, assemble_lines_ascending h hdebug⟩
  case instructions =>
    intro j s hs
    obtain ⟨hfirst, text, its, hget, hits, hmem⟩ :=
      line_of_statement hown (List.mem_of_getElem? hs)
    refine ⟨⟨text, its, hfirst, hget, hits, hmem⟩, UInt32.ofNat s.line, ?_, ?_⟩
    · obtain ⟨hin, -⟩ := List.getElem?_eq_some_iff.mp hget
      have hfits : s.line < UInt32.size := by omega
      rw [UInt32.toNat_ofNat', Nat.mod_eq_of_lt hfits]
    · intro offset hle hlt
      have htake : dispatchLength own + j + 1 - dispatchLength own = j + 1 := by omega
      have hentry := hlines j
      rw [hs, Option.map_some] at hentry
      rw [lineFor_of_instruction hlaid hdebug hlines hle hlt, htake, List.take_add_one, hentry,
        Option.toList_some, List.getLast?_concat, Option.map_some]
  case dispatcher =>
    intro offset hlt
    obtain ⟨k, hk, hfirst, hlast⟩ := exists_instruction_at _ hlt
    have hnone : k + 1 - dispatchLength own = 0 := by omega
    rw [lineFor_of_instruction hlaid hdebug hlines hfirst hlast, hnone, List.take_zero]
    rfl
  case cover =>
    intro offset hlt
    rw [← hlaid.length_code, ← startOf_of_length_le (Nat.le_refl placed.length)] at hlt
    obtain ⟨k, hk, hfirst, hlast⟩ := exists_instruction_at _ hlt
    by_cases hadded : k < dispatchLength own
    · exact .inl (Nat.lt_of_lt_of_le hlast (startOf_mono placed hadded))
    · obtain ⟨j, rfl⟩ : ∃ j, k = dispatchLength own + j := ⟨k - dispatchLength own, by omega⟩
      have hj : j < (statementsOf own).length := by omega
      exact .inr ⟨j, _, List.getElem?_eq_getElem hj, hfirst, hlast⟩

/-- The dispatcher takes 28 bytes, which have no line; every other offset of the code has one. -/
theorem lines_around_a_blank_line : ∃ script debug,
    assemble "pub main: JMP end\n\nend: RET" = .ok script ∧
    script.debug = some debug ∧ debug.lines = [(28, 1), (33, 3)] ∧
    (∀ offset, offset < 28 → script.lineFor offset = none) ∧
    (∀ offset, 28 ≤ offset → offset < 33 → script.lineFor offset = some 1) ∧
    ∀ offset, 33 ≤ offset → offset < script.code.size →
      ∃ line, script.lineFor offset = some line := by
  have hassembled : (match assemble "pub main: JMP end\n\nend: RET" with
      | .ok script => decide (script.debug.map DebugInfo.lines = some [(28, 1), (33, 3)])
      | .error _ => false) = true := by
    decide +kernel
  split at hassembled
  · next script h =>
    obtain ⟨debug, hdebug, hentries⟩ := Option.map_eq_some_iff.mp (of_decide_eq_true hassembled)
    obtain ⟨own, placed, debug', -, hlaid, hdebug', hwritten, hadded, hcover, -, hlines, -⟩ :=
      line_table_is_exact h (by decide +kernel)
    obtain rfl : debug = debug' := Option.some.inj (hdebug.symm.trans hdebug')
    -- the two entries say where the two instructions begin
    have hentry : ∀ j (a : UInt32 × UInt32), debug.lines[j]? = some a →
        ∃ s, (statementsOf own)[j]? = some s ∧
          startOf placed (dispatchLength own + j) = a.1.toNat ∧ UInt32.ofNat s.line = a.2 := by
      intro j a ha
      rw [hlines] at ha
      obtain ⟨s, hs, rfl⟩ := Option.map_eq_some_iff.mp ha
      exact ⟨s, hs, (hlaid.toNat_ofNat_startOf _).symm, rfl⟩
    obtain ⟨s, hs, hstart, hline⟩ := hentry 0 (28, 1) (by rw [hentries]; rfl)
    obtain ⟨-, -, hstop, -⟩ := hentry 1 (33, 3) (by rw [hentries]; rfl)
    have hfirst : startOf placed (dispatchLength own) = 28 := hstart
    have hsecond : startOf placed (dispatchLength own + 1) = 33 := hstop
    obtain ⟨-, line, hnumber, hfound⟩ := hwritten 0 s hs
    obtain rfl : line = 1 := by
      rw [← hnumber, UInt32.ofNat_toNat] at hline
      exact hline
    refine ⟨script, debug, h, hdebug, hentries, ?_, ?_, ?_⟩
    · intro offset hlt
      exact hadded offset (Nat.lt_of_lt_of_eq hlt hfirst.symm)
    · intro offset hle hlt
      exact hfound offset (Nat.le_trans (Nat.le_of_eq hfirst) hle)
        (Nat.lt_of_lt_of_eq hlt hsecond.symm)
    · intro offset hle hlt
      rcases hcover offset hlt with hbefore | ⟨j, s', hs', hfrom, hto⟩
      · omega
      · obtain ⟨-, line, -, hfound'⟩ := hwritten j s' hs'
        exact ⟨line, hfound' offset hfrom hto⟩
  · cases hassembled

end ContractVM.Assembly
