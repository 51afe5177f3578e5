import ContractVM.Assembly.Layout
import ContractVM.Proofs.Result

/-! # Items of a text

    A text says which labels are defined and which instructions stand between them.
    These are its items, in the order of the text:

    * **Items**: read line by line, with no regard to offsets.
    * **The first pass**: `Draft.Takes` says what a draft becomes by a row of items; the
      first pass over lines is exactly that over their items. -/

namespace ContractVM.Assembly

/-! ## Section 1: Items -/

/-- What a line contributes to a script. -/
inductive Item where
  | label (l : LabelDef)
  | statement (s : Statement)

/-- The item of the tokens behind a label definition, if there are any. -/
def statementOf (line : Nat) : List Token → Except Diagnostic (List Item)
  | [] => .ok []
  | head :: operands =>
    match parseInstr head operands with
    | .error cause => .error ⟨line, head.column, cause⟩
    | .ok instr => .ok [.statement ⟨line, head.column, instr⟩]

/-- The items of a line: its label definition, then its instruction. -/
def SourceLine.items (line : SourceLine) : Except Diagnostic (List Item) := do
  let tokens ← tokenize line.number line.text
  let statement ← statementOf line.number (splitLabel tokens).2
  return (splitLabel tokens).1.toList.map .label ++ statement

/-- The items of lines, from the first on. -/
def items : List SourceLine → Except Diagnostic (List Item)
  | [] => .ok []
  | line :: rest => do
    let front ← line.items
    let back ← items rest
    return front ++ back

/-- The instructions among items. -/
def statementsOf : List Item → List Statement
  | [] => []
  | .label _ :: rest => statementsOf rest
  | .statement s :: rest => s :: statementsOf rest

/-- The labels among items, each with the number of the instructions before it. -/
def definitions : List Item → List (LabelDef × Nat)
  | [] => []
  | .label l :: rest => (l, 0) :: definitions rest
  | .statement _ :: rest => (definitions rest).map fun d => (d.1, d.2 + 1)

@[simp] theorem statementsOf_append (front back : List Item) :
    statementsOf (front ++ back) = statementsOf front ++ statementsOf back := by
  induction front with
  | nil => rfl
  | cons item front ih =>
    cases item with
    | label l => exact ih
    | statement s => exact congrArg (s :: ·) ih

/-- The items of two rows of lines are those of the first, then those of the second. -/
theorem items_append {front back : List SourceLine} {its : List Item} :
    items (front ++ back) = .ok its ↔
      ∃ xs ys, items front = .ok xs ∧ items back = .ok ys ∧ its = xs ++ ys := by
  induction front generalizing its with
  | nil =>
    constructor
    · intro h
      exact ⟨[], its, rfl, h, rfl⟩
    · rintro ⟨xs, ys, hxs, hys, rfl⟩
      cases hxs
      exact hys
  | cons line front ih =>
    simp only [List.cons_append, items, Except.bind_eq_ok]
    constructor
    · rintro ⟨ls, hls, rest, hrest, heq⟩
      obtain ⟨xs, ys, hxs, hys, rfl⟩ := ih.mp hrest
      cases heq
      refine ⟨ls ++ xs, ys, ⟨ls, hls, xs, hxs, rfl⟩, hys, ?_⟩
      rw [List.append_assoc]
    · rintro ⟨_, ys, ⟨ls, hls, xs, hxs, heq⟩, hys, rfl⟩
      cases heq
      refine ⟨ls, hls, xs ++ ys, ih.mpr ⟨xs, ys, hxs, hys, rfl⟩, ?_⟩
      rw [List.append_assoc]
      rfl

/-- A label comes after as many instructions as `definitions` says. -/
theorem mem_definitions {l : LabelDef} {k : Nat} {its : List Item} :
    (l, k) ∈ definitions its ↔
      ∃ front back, its = front ++ .label l :: back ∧ k = (statementsOf front).length := by
  induction its generalizing k with
  | nil => simp [definitions]
  | cons item its ih =>
    constructor
    · intro h
      cases item with
      | label l' =>
        rcases List.mem_cons.mp h with heq | hrest
        · cases heq
          exact ⟨[], its, rfl, rfl⟩
        · obtain ⟨front, back, rfl, rfl⟩ := ih.mp hrest
          exact ⟨.label l' :: front, back, rfl, rfl⟩
      | statement s =>
        obtain ⟨⟨l', j⟩, hmem, heq⟩ := List.mem_map.mp h
        cases heq
        obtain ⟨front, back, rfl, rfl⟩ := ih.mp hmem
        exact ⟨.statement s :: front, back, rfl, rfl⟩
    · rintro ⟨front, back, heq, rfl⟩
      cases front with
      | nil =>
        cases heq
        exact List.mem_cons_self
      | cons item' front =>
        obtain ⟨rfl, rfl⟩ := List.cons.inj heq
        have hmem := ih.mpr ⟨front, back, rfl, rfl⟩
        cases item with
        | label l' => exact List.mem_cons_of_mem _ hmem
        | statement s => exact List.mem_map.mpr ⟨_, hmem, rfl⟩

/-- More items in front of a label move it behind their instructions. -/
theorem mem_definitions_append {l : LabelDef} {k : Nat} (front : List Item) {back : List Item}
    (h : (l, k) ∈ definitions back) :
    (l, (statementsOf front).length + k) ∈ definitions (front ++ back) := by
  obtain ⟨xs, ys, rfl, rfl⟩ := mem_definitions.mp h
  refine mem_definitions.mpr ⟨front ++ xs, ys, ?_, ?_⟩
  · rw [List.append_assoc]
  · rw [statementsOf_append, List.length_append]

/-! ## Section 2: The first pass over items -/

namespace Draft

/-- The draft after an item. -/
def add (d : Draft) : Item → Draft
  | .label l =>
    { d with
      labels := (l.name, d.size) :: d.labels
      methods := if l.isPublic then (l.name, UInt32.ofNat d.size) :: d.methods else d.methods }
  | .statement s =>
    { d with
      statements := s :: d.statements
      size := d.size + s.instr.encodedLength }

/-- Can the draft take this item?  A label needs a name of its own, and the code may not
    outgrow its offsets. -/
def Accepts (d : Draft) : Item → Prop
  | .label l => isLabelName l.name = true ∧ d.labels.lookup l.name = none
  | .statement s => d.size + s.instr.encodedLength < UInt32.size

/-- A draft takes items one by one and ends as another draft. -/
inductive Takes : Draft → List Item → Draft → Prop where
  | nil (d : Draft) : Takes d [] d
  | cons {d d' : Draft} {item : Item} {its : List Item} (ha : d.Accepts item)
      (ht : Takes (d.add item) its d') : Takes d (item :: its) d'

theorem takes_append {d d' : Draft} {front back : List Item} :
    Takes d (front ++ back) d' ↔ ∃ d₁, Takes d front d₁ ∧ Takes d₁ back d' := by
  induction front generalizing d with
  | nil =>
    constructor
    · intro h
      exact ⟨d, .nil d, h⟩
    · rintro ⟨d₁, hfront, hback⟩
      cases hfront
      exact hback
  | cons item front ih =>
    constructor
    · intro h
      cases h with
      | cons ha ht =>
        obtain ⟨d₁, hfront, hback⟩ := ih.mp ht
        exact ⟨d₁, .cons ha hfront, hback⟩
    · rintro ⟨d₁, hfront, hback⟩
      cases hfront with
      | cons ha ht => exact .cons ha (ih.mpr ⟨d₁, ht, hback⟩)

theorem takes_singleton {d d' : Draft} {item : Item} :
    Takes d [item] d' ↔ d.Accepts item ∧ d' = d.add item := by
  constructor
  · intro h
    cases h with
    | cons ha ht =>
      cases ht
      exact ⟨ha, rfl⟩
  · rintro ⟨ha, rfl⟩
    exact .cons ha (.nil _)

/-- Defining a label is taking it. -/
theorem define_eq_ok {d d' : Draft} {line : Nat} {l : LabelDef} :
    d.define line l = .ok d' ↔ Takes d [.label l] d' := by
  rw [takes_singleton]
  unfold define Accepts add
  by_cases hname : isLabelName l.name = true
  · by_cases hnew : d.labels.lookup l.name = none
    · simp only [hname, hnew, Bool.not_true, Bool.false_eq_true, if_false, Option.isSome_none,
        Except.ok.injEq, true_and]
      exact eq_comm
    · have hsome : (d.labels.lookup l.name).isSome = true := by
        rwa [Option.isSome_iff_ne_none]
      simp [hname, hnew, hsome]
  · simp [hname]

/-- Appending tokens is taking the instruction that they stand for. -/
theorem append_eq_ok {d d' : Draft} {line : Nat} {tokens : List Token} :
    d.append line tokens = .ok d' ↔
      ∃ its, statementOf line tokens = .ok its ∧ Takes d its d' := by
  cases tokens with
  | nil =>
    constructor
    · intro h
      cases h
      exact ⟨[], rfl, .nil d⟩
    · rintro ⟨its, hits, ht⟩
      cases hits
      cases ht
      rfl
  | cons head operands =>
    cases hparse : parseInstr head operands with
    | error cause => simp [append, statementOf, hparse]
    | ok instr =>
      simp only [append, statementOf, hparse, Except.ok.injEq, exists_eq_left', takes_singleton]
      unfold Accepts add
      by_cases hsize : UInt32.size ≤ d.size + instr.encodedLength
      · simp only [hsize, if_true]
        constructor
        · intro h; cases h
        · intro h; omega
      · simp only [hsize, if_false, Except.ok.injEq]
        constructor
        · intro h; exact ⟨by omega, h.symm⟩
        · intro h; exact h.2.symm

/-- After a line is tokenized, its label is taken if it has one, and then its
    instruction. -/
theorem addLine_of_tokens {d d' : Draft} {line : SourceLine} {tokens : List Token}
    (h : tokenize line.number line.text = .ok tokens) :
    d.addLine line = .ok d' ↔
      ∃ d₁, Takes d ((splitLabel tokens).1.toList.map .label) d₁ ∧
        d₁.append line.number (splitLabel tokens).2 = .ok d' := by
  unfold addLine
  rw [h]
  simp only [bind, Except.bind]
  cases (splitLabel tokens).1 with
  | none =>
    constructor
    · intro happend
      exact ⟨d, .nil d, happend⟩
    · rintro ⟨d₁, hlabel, happend⟩
      cases hlabel
      exact happend
  | some l =>
    show (d.define line.number l >>= fun d₁ => d₁.append line.number _) = .ok d' ↔ _
    simp only [Except.bind_eq_ok, define_eq_ok]
    rfl

/-- Adding a line is taking its items. -/
theorem addLine_eq_ok {d d' : Draft} {line : SourceLine} :
    d.addLine line = .ok d' ↔ ∃ its, line.items = .ok its ∧ Takes d its d' := by
  unfold SourceLine.items
  cases htokens : tokenize line.number line.text with
  | error e => simp [addLine, htokens, bind, Except.bind]
  | ok tokens =>
    rw [addLine_of_tokens htokens]
    constructor
    · rintro ⟨d₁, hlabel, happend⟩
      obtain ⟨statement, hstatement, hback⟩ := append_eq_ok.mp happend
      refine ⟨_, ?_, takes_append.mpr ⟨d₁, hlabel, hback⟩⟩
      show (statementOf line.number _ >>= fun statement => pure _) = _
      rw [hstatement]
      rfl
    · rintro ⟨its, hits, ht⟩
      change (statementOf line.number _ >>= fun statement => pure _) = .ok its at hits
      obtain ⟨statement, hstatement, heq⟩ := Except.bind_eq_ok.mp hits
      cases heq
      obtain ⟨d₁, hlabel, hback⟩ := takes_append.mp ht
      exact ⟨d₁, hlabel, append_eq_ok.mpr ⟨statement, hstatement, hback⟩⟩

/-- The first pass over lines takes their items. -/
theorem foldlM_addLine_eq_ok {d d' : Draft} {lines : List SourceLine} :
    lines.foldlM addLine d = .ok d' ↔ ∃ its, items lines = .ok its ∧ Takes d its d' := by
  induction lines generalizing d with
  | nil =>
    constructor
    · intro h
      cases h
      exact ⟨[], rfl, .nil _⟩
    · rintro ⟨its, hits, ht⟩
      cases hits
      cases ht
      rfl
  | cons line rest ih =>
    rw [List.foldlM_cons, Except.bind_eq_ok]
    simp only [items, Except.bind_eq_ok]
    constructor
    · rintro ⟨d₁, hline, hrest⟩
      obtain ⟨xs, hxs, hfront⟩ := addLine_eq_ok.mp hline
      obtain ⟨ys, hys, hback⟩ := ih.mp hrest
      exact ⟨xs ++ ys, ⟨xs, hxs, ys, hys, rfl⟩, takes_append.mpr ⟨d₁, hfront, hback⟩⟩
    · rintro ⟨_, ⟨xs, hxs, ys, hys, heq⟩, ht⟩
      cases heq
      obtain ⟨d₁, hfront, hback⟩ := takes_append.mp ht
      exact ⟨d₁, addLine_eq_ok.mpr ⟨xs, hxs, hfront⟩, ih.mpr ⟨ys, hys, hback⟩⟩

end Draft

end ContractVM.Assembly
