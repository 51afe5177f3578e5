import ContractVM.Proofs.Assembly.Labels

/-! # Where sources are refused

    A source is refused with a line and a column.  Both are those of a token, or of a quote
    that is not closed, so that they are found from the scanner upwards:

    * **Tokens** start inside their line, as `Token.scan_columns` says.
    * **Lines**: what the first pass refuses is a token of the line at hand, and what the
      second pass refuses is the mnemonic of a statement, which remembers its place.
    * **The dispatcher** is made of lines that are not part of the source.  They are read before
      the definitions of the names that they hold, so that a name which is none may be refused
      in a line that nobody wrote. -/

namespace ContractVM

/-- A row of steps fails at one of them. -/
theorem Except.foldlM_eq_error {ε α β : Type} {f : β → α → Except ε β} {as : List α} {b : β} {e : ε}
    (h : as.foldlM f b = .error e) : ∃ a ∈ as, ∃ b', f b' a = .error e := by
  induction as generalizing b with
  | nil => cases h
  | cons a as ih =>
    rw [List.foldlM_cons] at h
    rcases Except.bind_eq_error.mp h with hfirst | ⟨b', -, hrest⟩
    · exact ⟨a, List.mem_cons_self, b, hfirst⟩
    · obtain ⟨a', ha', hfails⟩ := ih hrest
      exact ⟨a', List.mem_cons_of_mem a ha', hfails⟩

namespace Assembly

/-! ## Section 1: Places in lines -/

/-- The line is one of these, and the column is one of its bytes. -/
def PointsInto (lines : List SourceLine) (line column : Nat) : Prop :=
  ∃ l ∈ lines, line = l.number ∧ 1 ≤ column ∧ column ≤ l.text.utf8ByteSize

theorem PointsInto.mono {lines lines' : List SourceLine} {line column : Nat}
    (h : PointsInto lines line column) (hsub : ∀ l ∈ lines, l ∈ lines') :
    PointsInto lines' line column := by
  obtain ⟨l, hl, hplace⟩ := h
  exact ⟨l, hsub l hl, hplace⟩

/-- The columns of a line that is cut into tokens are columns of that line. -/
theorem columnsTo_of_line (l : SourceLine) :
    Token.ColumnsTo l.text.utf8ByteSize (Token.scan 0 .between l.text.toList) := by
  apply Token.scan_columns
  · rw [Nat.zero_add, Token.width_toList]
  · intro column hcolumn
    cases hcolumn

theorem tokenize_pointsInto {l : SourceLine} {tokens : List Token}
    (h : tokenize l.number l.text = .ok tokens) {t : Token} (ht : t ∈ tokens) :
    PointsInto [l] l.number t.column := by
  have hcolumns := columnsTo_of_line l
  unfold tokenize at h
  split at h
  · next hscan =>
    cases h
    rw [hscan] at hcolumns
    exact ⟨l, List.mem_singleton_self l, rfl, hcolumns t ht⟩
  · cases h

/-- A quote that is not closed is reported where it was opened. -/
theorem tokenize_error_pointsInto {l : SourceLine} {e : Diagnostic}
    (h : tokenize l.number l.text = .error e) : PointsInto [l] e.line e.column := by
  have hcolumns := columnsTo_of_line l
  unfold tokenize at h
  split at h
  · cases h
  · next hscan =>
    cases h
    rw [hscan] at hcolumns
    exact ⟨l, List.mem_singleton_self l, rfl, hcolumns⟩

/-- A label has the column of the token that defines it. -/
theorem splitLabel_label {tokens : List Token} {label : LabelDef}
    (h : (splitLabel tokens).1 = some label) : ∃ t ∈ tokens, label.column = t.column := by
  unfold splitLabel at h
  split at h
  · cases h
  · next first rest =>
    split at h
    · next second _ _ _ =>
      cases h
      exact ⟨second, by simp, rfl⟩
    · split at h
      · cases h
        exact ⟨first, by simp, rfl⟩
      · cases h

/-- What stands behind the label are tokens of the line. -/
theorem splitLabel_rest {tokens : List Token} {t : Token} (h : t ∈ (splitLabel tokens).2) :
    t ∈ tokens := by
  unfold splitLabel at h
  split at h
  · cases h
  · split at h
    · exact List.mem_cons_of_mem _ (List.mem_cons_of_mem _ h)
    · split at h
      · exact List.mem_cons_of_mem _ h
      · exact h

/-! ## Section 2: The first pass -/

/-- A label is refused at its definition. -/
theorem define_error {d : Draft} {line : Nat} {label : LabelDef} {e : Diagnostic}
    (h : d.define line label = .error e) : e.line = line ∧ e.column = label.column := by
  unfold Draft.define at h
  split at h
  · cases h
    exact ⟨rfl, rfl⟩
  · split at h
    · cases h
      exact ⟨rfl, rfl⟩
    · cases h

/-- An instruction is refused at its mnemonic. -/
theorem append_error {d : Draft} {line : Nat} {tokens : List Token} {e : Diagnostic}
    (h : d.append line tokens = .error e) : e.line = line ∧ ∃ t ∈ tokens, e.column = t.column := by
  unfold Draft.append at h
  split at h
  · cases h
  · next head operands =>
    have hhead : head ∈ head :: operands := List.mem_cons_self
    split at h
    · cases h
      exact ⟨rfl, head, hhead, rfl⟩
    · dsimp only at h
      split at h
      · cases h
        exact ⟨rfl, head, hhead, rfl⟩
      · cases h

/-- What the first pass refuses is in the line at hand. -/
theorem addLine_error {d : Draft} {l : SourceLine} {e : Diagnostic} (h : d.addLine l = .error e) :
    PointsInto [l] e.line e.column := by
  rcases Except.bind_eq_error.mp h with htokens | ⟨tokens, htokens, h⟩
  · exact tokenize_error_pointsInto htokens
  have hplace : ∀ t ∈ tokens, e.line = l.number → e.column = t.column →
      PointsInto [l] e.line e.column := by
    intro t ht hline hcolumn
    rw [hline, hcolumn]
    exact tokenize_pointsInto htokens ht
  have hback : ∀ t ∈ (splitLabel tokens).2, t ∈ tokens := fun t ht => splitLabel_rest ht
  have hlabel : ∀ label, (splitLabel tokens).1 = some label →
      ∃ t ∈ tokens, label.column = t.column := fun _ => splitLabel_label
  generalize splitLabel tokens = parts at h hback hlabel
  obtain ⟨label?, rest⟩ := parts
  -- the line is refused for its label, or for what stands behind it
  have happends : ∀ d₁ : Draft, d₁.append l.number rest = .error e →
      PointsInto [l] e.line e.column := by
    intro d₁ happend
    obtain ⟨hline, t, ht, hcolumn⟩ := append_error happend
    exact hplace t (hback t ht) hline hcolumn
  cases label? with
  | none => exact happends d h
  | some label =>
    change (d.define l.number label >>= fun d₁ => d₁.append l.number rest) = .error e at h
    rcases Except.bind_eq_error.mp h with hdefine | ⟨d₁, -, happend⟩
    · obtain ⟨hline, hcolumn⟩ := define_error hdefine
      obtain ⟨t, ht, heq⟩ := hlabel label rfl
      exact hplace t ht hline (hcolumn.trans heq)
    · exact happends d₁ happend

theorem foldlM_addLine_error {lines : List SourceLine} {d : Draft} {e : Diagnostic}
    (h : lines.foldlM Draft.addLine d = .error e) : PointsInto lines e.line e.column := by
  obtain ⟨l, hl, d', hline⟩ := Except.foldlM_eq_error h
  apply (addLine_error hline).mono
  simpa using hl

/-- The names of public labels are collected unless a line cannot be cut into tokens. -/
theorem publicNames_error {lines : List SourceLine} {e : Diagnostic}
    (h : publicNames lines = .error e) : PointsInto lines e.line e.column := by
  induction lines with
  | nil => cases h
  | cons l rest ih =>
    rcases Except.bind_eq_error.mp h with htokens | ⟨tokens, -, h⟩
    · apply (tokenize_error_pointsInto htokens).mono
      simp
    rcases Except.bind_eq_error.mp h with hrest | ⟨names, -, h⟩
    · apply (ih hrest).mono
      intro l' hl'
      exact List.mem_cons_of_mem l hl'
    · split at h
      · cases h
      · cases h

/-! ## Section 3: The second pass -/

/-- Every statement stands in one of the lines. -/
theorem exists_line_of_statement {lines : List SourceLine} {its : List Item}
    (h : items lines = .ok its) {s : Statement} (hs : s ∈ statementsOf its) :
    ∃ l ∈ lines, ∃ own, l.items = .ok own ∧ s ∈ statementsOf own := by
  induction lines generalizing its with
  | nil =>
    cases h
    cases hs
  | cons l rest ih =>
    obtain ⟨front, hfront, h⟩ := Except.bind_eq_ok.mp h
    obtain ⟨back, hback, heq⟩ := Except.bind_eq_ok.mp h
    cases heq
    rw [statementsOf_append] at hs
    rcases List.mem_append.mp hs with hs | hs
    · exact ⟨l, List.mem_cons_self, front, hfront, hs⟩
    · obtain ⟨l', hl', hown⟩ := ih hback hs
      exact ⟨l', List.mem_cons_of_mem l hl', hown⟩

/-- A statement remembers the place of its mnemonic. -/
theorem statement_pointsInto {l : SourceLine} {own : List Item} (h : l.items = .ok own)
    {s : Statement} (hs : s ∈ statementsOf own) : PointsInto [l] s.line s.column := by
  obtain ⟨tokens, htokens, hline⟩ := Except.bind_eq_ok.mp h
  obtain ⟨statement, hstatement, heq⟩ := Except.bind_eq_ok.mp hline
  cases heq
  have hlabels : ∀ label? : Option LabelDef,
      statementsOf (label?.toList.map Item.label) = [] := by
    intro label?
    cases label? with
    | none => rfl
    | some label => rfl
  rw [statementsOf_append, hlabels, List.nil_append] at hs
  unfold statementOf at hstatement
  split at hstatement
  · cases hstatement
    cases hs
  · next head operands hrest =>
    split at hstatement
    · cases hstatement
    · cases hstatement
      rw [statementsOf, statementsOf, List.mem_singleton] at hs
      subst hs
      exact tokenize_pointsInto htokens (splitLabel_rest (hrest ▸ List.mem_cons_self))

/-- What the second pass refuses is a statement with a label that is not defined. -/
theorem foldlM_place_error {labels : List (String × Nat)} {ss : List Statement} {image : Image}
    {e : Diagnostic} (h : ss.foldlM (Image.place labels) image = .error e) :
    ∃ s ∈ ss, e.line = s.line ∧ e.column = s.column ∧
      s.instr.mapAddress (Address.resolve labels) = .error e.cause := by
  obtain ⟨s, hs, image', hplace⟩ := Except.foldlM_eq_error h
  refine ⟨s, hs, ?_⟩
  unfold Image.place at hplace
  split at hplace
  · next hcause =>
    cases hplace
    exact ⟨rfl, rfl, hcause⟩
  · cases hplace

/-! ## Section 4: The dispatcher -/

/-- Instructions of added lines are taken if their code fits the offsets. -/
theorem exists_takes_added {d : Draft} {is : List (Instr Address)}
    (h : d.size + codeLength (is.map addedStatement) < UInt32.size) :
    ∃ d', Draft.Takes d (is.map added) d' := by
  induction is generalizing d with
  | nil => exact ⟨d, .nil d⟩
  | cons i is ih =>
    have hcode : codeLength ((i :: is).map addedStatement) =
        i.encodedLength + codeLength (is.map addedStatement) := rfl
    rw [hcode] at h
    have hfits : d.size + i.encodedLength < UInt32.size := by omega
    have hrest : (d.add (added i)).size + codeLength (is.map addedStatement) < UInt32.size := by
      show d.size + i.encodedLength + _ < _
      omega
    obtain ⟨d', htakes⟩ := ih hrest
    exact ⟨d', .cons hfits htakes⟩

/-- The dispatcher is refused only for a name that is none, or for its length. -/
theorem dispatcher_error {names : List String} {e : Diagnostic}
    (h : (dispatcher names).foldlM Draft.addLine .empty = .error e) :
    (∃ name ∈ names, isLabelName name = false) ∨
      UInt32.size ≤ codeLength ((dispatch names).map addedStatement) := by
  by_cases hnames : ∀ name ∈ names, isLabelName name = true
  · -- its lines are read then, so only the length of its code can be refused
    right
    by_contra hshort
    have hfits : Draft.empty.size + codeLength ((dispatch names).map addedStatement) <
        UInt32.size := by
      show 0 + _ < _
      omega
    obtain ⟨d', htakes⟩ := exists_takes_added hfits
    have hok := Draft.foldlM_addLine_eq_ok.mpr ⟨_, items_dispatcher hnames, htakes⟩
    rw [hok] at h
    cases h
  · left
    simpa using hnames

/-- Its lines have no number of the source. -/
theorem number_of_mem_dispatcher {names : List String} {l : SourceLine}
    (h : l ∈ dispatcher names) : l.number = 0 := by
  unfold dispatcher at h
  split at h
  · cases h
  · obtain ⟨text, -, rfl⟩ := List.mem_map.mp h
    rfl

/-- Every label that is taken is in the table of the first pass. -/
theorem Draft.Takes.lookup_ne_none {d d' : Draft} {its : List Item} (h : Draft.Takes d its d')
    {l : LabelDef} {k : Nat} (hl : (l, k) ∈ definitions its) : d'.labels.lookup l.name ≠ none := by
  intro hnone
  have hmem : (l.name, d.size + codeLength ((statementsOf its).take k)) ∈ d'.labels := by
    rw [h.labels_eq]
    apply List.mem_append_left
    rw [List.mem_reverse]
    exact List.mem_map.mpr ⟨(l, k), hl, rfl⟩
  exact not_mem_of_lookup hnone _ hmem

/-- The jumps of the dispatcher are resolved if its names are defined. -/
theorem dispatch_resolves {names : List String} {labels : List (String × Nat)}
    (hlabels : ∀ name ∈ names, labels.lookup name ≠ none) {i : Instr Address}
    (hi : i ∈ dispatch names) : ∃ j, i.mapAddress (Address.resolve labels) = .ok j := by
  cases dispatches_of_mem hi with
  | pop => exact ⟨_, rfl⟩
  | load hname => exact ⟨_, rfl⟩
  | equal => exact ⟨_, rfl⟩
  | @jmpIf name hname =>
    obtain ⟨place, hplace⟩ := Option.ne_none_iff_exists'.mp (hlabels name hname)
    have hresolve : Address.resolve labels (.label name) = .ok (UInt32.ofNat place) := by
      unfold Address.resolve
      simp only [hplace]
    exact ⟨_, Except.bind_eq_ok.mpr ⟨_, Operands.mapAddress_branch.mpr ⟨_, hresolve, rfl⟩, rfl⟩⟩
  | ret => exact ⟨_, rfl⟩

/-! ## Section 5: Failures and their places -/

/-- The numbers of lines are their places in the source. -/
theorem getElem?_of_mem_numbered {first : Nat} {texts : List String} {l : SourceLine}
    (h : l ∈ numbered first texts) :
    first ≤ l.number ∧ texts[l.number - first]? = some l.text := by
  induction texts generalizing first with
  | nil => cases h
  | cons text texts ih =>
    rcases List.mem_cons.mp h with rfl | h
    · simp
    · obtain ⟨hfirst, hget⟩ := ih h
      have hsub : l.number - first = l.number - (first + 1) + 1 := by omega
      refine ⟨by omega, ?_⟩
      rw [hsub, List.getElem?_cons_succ]
      exact hget

/-- The first two lines of a report. -/
def Diagnostic.headline (d : Diagnostic) (file : String) : String :=
  s!"error: {d.cause.message}\n --> {file}:{d.line}:{d.column}\n"

/-- A line of the source in a report, with a mark under the column. -/
def Diagnostic.excerpt (d : Diagnostic) (text : String) : String :=
  "  |\n" ++ Text.padLeft ' ' 4 (toString d.line) ++ " | " ++ trimReturns text ++
    "\n  | " ++ String.ofList (List.replicate (d.column - 1) ' ') ++ "^\n"

/-- The diagnostic points at a byte of a line of the source, and its report shows this line. -/
structure Diagnostic.LocatedIn (d : Diagnostic) (source : String) : Prop where
  firstLine : 1 ≤ d.line
  lastLine : d.line ≤ (Text.lines source).length
  column : ∃ text, (Text.lines source)[d.line - 1]? = some text ∧
    1 ≤ d.column ∧ d.column ≤ text.utf8ByteSize ∧
    ∀ file, d.render file source = d.headline file ++ d.excerpt text

theorem Diagnostic.locatedIn_of_pointsInto {d : Diagnostic} {source : String}
    (h : PointsInto (numbered 1 (Text.lines source)) d.line d.column) : d.LocatedIn source := by
  obtain ⟨l, hl, hline, hfirst, hlast⟩ := h
  obtain ⟨hnumber, hget⟩ := getElem?_of_mem_numbered hl
  rw [← hline] at hnumber hget
  obtain ⟨hlt, -⟩ := List.getElem?_eq_some_iff.mp hget
  have hne : ¬ d.line = 0 := by omega
  refine ⟨hnumber, by omega, l.text, hget, hfirst, hlast, ?_⟩
  intro file
  unfold Diagnostic.render Assembly.render
  simp only [if_neg hne, hget]
  unfold Diagnostic.headline Diagnostic.excerpt
  simp only [String.append_assoc]

/-- What the second pass refuses is in the source: the dispatcher jumps to labels that the
    first pass has found. -/
theorem place_error_pointsInto {names : List String} {lines : List SourceLine}
    (hnames : publicNames lines = .ok names) {draft : Draft}
    (hdraft : (dispatcher names ++ lines).foldlM Draft.addLine .empty = .ok draft) {e : Diagnostic}
    (h : draft.statements.reverse.foldlM (Image.place draft.labels) .empty = .error e) :
    PointsInto lines e.line e.column := by
  obtain ⟨its, hits, htakes⟩ := Draft.foldlM_addLine_eq_ok.mp hdraft
  obtain ⟨own, hown, rfl, rfl⟩ := items_withDispatcher hnames hits htakes.names_valid
  obtain ⟨s, hs, hline, hcolumn, hcause⟩ := foldlM_place_error h
  rw [htakes.statements_eq, Draft.empty, List.append_nil, List.reverse_reverse,
    statementsOf_withDispatcher] at hs
  rcases List.mem_append.mp hs with hs | hs
  · -- a statement of the dispatcher cannot fail
    obtain ⟨i, hi, rfl⟩ := List.mem_map.mp hs
    have hlabels : ∀ name ∈ publicOf own, draft.labels.lookup name ≠ none := by
      intro name hname
      obtain ⟨l, k, hl, -, rfl⟩ := exists_of_mem_publicOf hname
      exact htakes.lookup_ne_none (mem_definitions_append _ hl)
    obtain ⟨j, hj⟩ := dispatch_resolves hlabels hi
    cases hj.symm.trans hcause
  · obtain ⟨l, hl, own', hown', hs⟩ := exists_line_of_statement hown hs
    rw [hline, hcolumn]
    apply (statement_pointsInto hown' hs).mono
    simpa using hl

/-- **Failures are located.** A source that is refused is refused at a byte of one of its lines,
    and the report shows this line; or else it is refused at line 0, where no line is shown.  The
    latter happens only if the dispatcher cannot be read: one of the public names is no name of
    a label, or the dispatcher alone exceeds the offsets of 32 bits. -/
theorem failures_are_located {source : String} {d : Diagnostic} (h : assemble source = .error d) :
    d.LocatedIn source ∨
    (d.line = 0 ∧ ∃ names, publicNames (numbered 1 (Text.lines source)) = .ok names ∧
      (dispatcher names).foldlM Draft.addLine .empty = .error d ∧
      ((∃ name ∈ names, isLabelName name = false) ∨
        UInt32.size ≤ codeLength ((dispatch names).map addedStatement))) := by
  rcases Except.bind_eq_error.mp h with hnames | ⟨names, hnames, hlayout⟩
  · exact .inl (Diagnostic.locatedIn_of_pointsInto (publicNames_error hnames))
  rcases Except.bind_eq_error.mp hlayout with hfirst | ⟨draft, hdraft, hsecond⟩
  · -- the lines of the dispatcher come first, those of the source behind them
    rw [List.foldlM_append] at hfirst
    rcases Except.bind_eq_error.mp hfirst with hdispatcher | ⟨d₁, -, hown⟩
    · obtain ⟨l, hl, hline, -⟩ := foldlM_addLine_error hdispatcher
      right
      refine ⟨?_, names, hnames, hdispatcher, dispatcher_error hdispatcher⟩
      rw [hline, number_of_mem_dispatcher hl]
    · exact .inl (Diagnostic.locatedIn_of_pointsInto (foldlM_addLine_error hown))
  · rcases Except.bind_eq_error.mp hsecond with hplace | ⟨image, -, heq⟩
    · exact .inl (Diagnostic.locatedIn_of_pointsInto (place_error_pointsInto hnames hdraft hplace))
    · cases heq

/-- A jump to nowhere is reported with its line. -/
theorem jump_to_nowhere_is_located : ∃ d, assemble "NOP\n JMP nowhere" = .error d ∧
    d.LocatedIn "NOP\n JMP nowhere" ∧ d.line = 2 ∧ d.column = 2 := by
  have hrefused : (match assemble "NOP\n JMP nowhere" with
      | .error d => decide (d = ⟨2, 2, .undefinedLabel "nowhere"⟩)
      | .ok _ => false) = true := by
    decide +kernel
  split at hrefused
  · next d hd =>
    cases of_decide_eq_true hrefused
    refine ⟨_, hd, ?_, rfl, rfl⟩
    rcases failures_are_located hd with hlocated | ⟨hzero, -⟩
    · exact hlocated
    · cases hzero
  · cases hrefused

/-- A public name that starts with a digit is refused in a line that the source does not have,
    although the same name is refused at its definition if it is not public. -/
theorem public_name_is_refused_elsewhere :
    (∃ d, assemble "pub 9lives:" = .error d ∧ d.line = 0 ∧ ¬ d.LocatedIn "pub 9lives:" ∧
      d.render "t.asm" "pub 9lives:" = d.headline "t.asm") ∧
    ∃ d, assemble "9lives:" = .error d ∧ d.line = 1 ∧ d.column = 1 ∧
      d.cause = .invalidLabelName "9lives" := by
  have hpublic : (match assemble "pub 9lives:" with
      | .error d => decide (d = ⟨0, 1, .invalidLiteral ⟨"9lives", .noLabelOrOffset⟩⟩)
      | .ok _ => false) = true := by
    decide +kernel
  have hprivate : (match assemble "9lives:" with
      | .error d => decide (d = ⟨1, 1, .invalidLabelName "9lives"⟩)
      | .ok _ => false) = true := by
    decide +kernel
  constructor
  · split at hpublic
    · next d hd =>
      cases of_decide_eq_true hpublic
      refine ⟨_, hd, rfl, ?_, rfl⟩
      intro hlocated
      exact absurd hlocated.firstLine (by decide)
    · cases hpublic
  · split at hprivate
    · next d hd =>
      cases of_decide_eq_true hprivate
      exact ⟨_, hd, rfl, rfl, rfl⟩
    · cases hprivate

end Assembly

end ContractVM
