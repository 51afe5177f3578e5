import ContractVM.Proofs.Assembly.Items
import ContractVM.Proofs.Assembly.Tokens
import ContractVM.Proofs.Isa.Encoding

/-! # The dispatcher as instructions

    The dispatcher is written as text and assembled like the lines of the source.

    * **Reading it back**: its lines are the instructions that `dispatch` lists.
    * **Its names**: those of the public labels of the source, in their order. -/

namespace ContractVM.Assembly

/-! ## Section 1: The instructions of the dispatcher -/

/-- The instructions that compare the selector with one name. -/
def dispatchCase (name : String) : List (Instr Address) :=
  [⟨.load, (30, .string name, ())⟩,
    ⟨.equal, (31, 30, 29, ())⟩,
    ⟨.jmpIf, (29, .label name, ())⟩]

/-- The instructions of the dispatcher to public labels. -/
def dispatch (names : List String) : List (Instr Address) :=
  if names.isEmpty then []
  else [⟨.pop, (31, ())⟩] ++ names.flatMap dispatchCase ++ [⟨.ret, ()⟩]

/-- An instruction that starts an added line. -/
def addedStatement (i : Instr Address) : Statement :=
  ⟨0, 1, i⟩

/-- The same among items. -/
def added (i : Instr Address) : Item :=
  .statement (addedStatement i)

theorem statementsOf_map_added (is : List (Instr Address)) :
    statementsOf (is.map added) = is.map addedStatement := by
  induction is with
  | nil => rfl
  | cons i is ih => exact congrArg (addedStatement i :: ·) ih

/-- Is the address a label? -/
def Address.isLabel : Address → Bool
  | .label _ => true
  | .offset _ => false

/-- The instructions of which a dispatcher consists. -/
inductive Dispatches (names : List String) : Instr Address → Prop where
  | pop : Dispatches names ⟨.pop, (31, ())⟩
  | load {name : String} (hname : name ∈ names) : Dispatches names ⟨.load, (30, .string name, ())⟩
  | equal : Dispatches names ⟨.equal, (31, 30, 29, ())⟩
  | jmpIf {name : String} (hname : name ∈ names) :
    Dispatches names ⟨.jmpIf, (29, .label name, ())⟩
  | ret : Dispatches names ⟨.ret, ()⟩

theorem dispatches_of_mem {names : List String} {i : Instr Address} (hi : i ∈ dispatch names) :
    Dispatches names i := by
  unfold dispatch at hi
  split at hi
  · cases hi
  · rw [List.append_assoc, List.mem_append, List.mem_append, List.mem_singleton,
      List.mem_singleton, List.mem_flatMap] at hi
    rcases hi with rfl | ⟨name, hname, hi⟩ | rfl
    · exact .pop
    · unfold dispatchCase at hi
      simp only [List.mem_cons, List.not_mem_nil, or_false] at hi
      rcases hi with rfl | rfl | rfl
      · exact .load hname
      · exact .equal
      · exact .jmpIf hname
    · exact .ret

/-- The jumps of the dispatcher name labels. -/
theorem isLabel_of_mem_dispatch {names : List String} {i : Instr Address} (hi : i ∈ dispatch names)
    {a : Address} (ha : i.target? = some a) : a.isLabel = true := by
  cases dispatches_of_mem hi with
  | jmpIf hname =>
    cases ha
    rfl
  | pop | load | equal | ret => cases ha

/-! ## Section 2: Its lines read back -/

variable {name : String}

/-- A line whose last operand is one token.  The front of the line is a text at hand, so that
    the scanner comes to its end by computation. -/
theorem tokenize_lastOperand {line position : Nat} {front text : String} {head operand : Token}
    (htext : Token.IsWhole text)
    (hfront : ∀ rest, Token.scan 0 .between (front.toList ++ rest) = do
      let ts ← (do
        let ts ← Token.scan position .between rest
        return [operand] ++ ts)
      return [head] ++ ts) :
    tokenize line (front ++ text) = .ok [head, operand, ⟨text, position + 1⟩] := by
  apply tokenize_eq_ok
  rw [String.toList_append, hfront, htext position]
  rfl

/-- The comparisons of the dispatcher as tokens. -/
theorem tokenize_load {line : Nat} (h : isLabelName name = true) :
    tokenize line ("LOAD r30, \"" ++ name ++ "\"") =
      .ok [⟨"LOAD", 1⟩, ⟨"r30", 6⟩, ⟨"\"" ++ name ++ "\"", 11⟩] := by
  have htext : "LOAD r30, \"" ++ name ++ "\"" = "LOAD r30, " ++ ("\"" ++ name ++ "\"") := by
    apply String.toList_inj.mp
    simp
  rw [htext]
  exact tokenize_lastOperand (spelled_of_quotedName h).isWhole fun _ => rfl

theorem tokenize_jmpIf (h : isLabelName name = true) :
    tokenize 0 ("JMPIF r29, " ++ name) = .ok [⟨"JMPIF", 1⟩, ⟨"r29", 7⟩, ⟨name, 12⟩] :=
  tokenize_lastOperand (spelled_of_isLabelName h).isWhole fun _ => rfl

theorem unescape?_cons_of_ne {c : Char} (h : c ≠ '\\') (cs : List Char) :
    unescape? (c :: cs) = (unescape? cs).map (c :: ·) := by
  -- the cases before the last one are those of a backslash
  rw [unescape?] <;> simp [h]

/-- Where nothing is escaped, a text stands for itself. -/
theorem unescape?_eq_some {cs : List Char} (h : ∀ d ∈ cs, d ≠ '\\') : unescape? cs = some cs := by
  induction cs with
  | nil => rfl
  | cons d cs ih =>
    rw [unescape?_cons_of_ne (h d List.mem_cons_self),
      ih fun e he => h e (List.mem_cons_of_mem d he)]
    rfl

/-- What stands in quotes is a text literal if its escapes are known. -/
theorem parseLiteral_of_body {body cs : List Char} (h : unescape? body = some cs) :
    parseLiteral (String.ofList ('"' :: (body ++ ['"']))) = .ok (.string (String.ofList cs)) := by
  unfold parseLiteral parseQuoted
  rw [String.toList_ofList]
  simp only [quotedBody?, List.getLast?_concat, if_true, List.dropLast_concat, Option.map_some]
  rw [h]
  rfl

/-- A quoted name is a text literal. -/
theorem parseLiteral_quotedName (h : isLabelName name = true) :
    parseLiteral ("\"" ++ name ++ "\"") = .ok (.string name) := by
  obtain ⟨c, rest, hname, -, hchars⟩ := isLabelName_iff.mp h
  rw [← hname] at hchars
  have htext : "\"" ++ name ++ "\"" = String.ofList ('"' :: (name.toList ++ ['"'])) := by
    apply String.toList_inj.mp
    simp
  have hunescape : unescape? name.toList = some name.toList :=
    unescape?_eq_some fun d hd => (unquoted_of_isNameChar (hchars d hd)).1
  rw [htext, parseLiteral_of_body hunescape, String.ofList_toList]

/-- A name is no offset. -/
theorem parseAddress_name (h : isLabelName name = true) :
    parseAddress name = .ok (.label name) := by
  obtain ⟨c, rest, hname, hstart, -⟩ := isLabelName_iff.mp h
  have hdigit : c.isDigit = false := by
    cases hd : c.isDigit with
    | false => rfl
    | true => exact absurd hd (not_isDigit_of_isLabelStart hstart)
  have hplus : c ≠ '+' := by
    rintro rfl
    revert hstart
    decide
  -- a number starts with a plus sign or a digit, a name with neither
  have hnone : Text.parseBounded? UInt32.size name.toList = none := by
    rw [hname]
    unfold Text.parseBounded?
    split
    · next heq =>
      cases heq
      exact absurd rfl hplus
    · next heq =>
      simp [Text.parseDigits?, hdigit]
  unfold parseAddress
  rw [hnone]
  simp only [h, if_true]

/-- An instruction is read as its mnemonic says. -/
theorem parseInstr_eq_ok {head : Token} {operands : List Token} {op : Opcode}
    {args : Operands Address op.shape} (hop : Opcode.ofMnemonic? head.text = some op)
    (hlen : operands.length = op.arity)
    (hargs : parseOperands (.wrongArity op operands.length) op.shape operands = .ok args) :
    parseInstr head operands = .ok ⟨op, args⟩ := by
  unfold parseInstr
  rw [hop]
  simp only [hlen, ne_eq, not_true_eq_false, if_false]
  rw [← hlen, hargs]
  rfl

/-- A `LOAD` has the register and the literal that its operands stand for. -/
theorem parseInstr_loadLiteral {register token : Token} {r : UInt8} {l : Literal}
    (hregister : parseRegister register.text = .ok r) (hliteral : parseLiteral token.text = .ok l) :
    parseInstr ⟨"LOAD", 1⟩ [register, token] = .ok ⟨.load, (r, l, ())⟩ := by
  apply parseInstr_eq_ok (by decide +kernel) rfl
  simp only [parseOperands, parseOperand, hregister, hliteral]
  rfl

theorem parseInstr_load (h : isLabelName name = true) :
    parseInstr ⟨"LOAD", 1⟩ [⟨"r30", 6⟩, ⟨"\"" ++ name ++ "\"", 11⟩] =
      .ok ⟨.load, (30, .string name, ())⟩ :=
  parseInstr_loadLiteral rfl (parseLiteral_quotedName h)

theorem parseInstr_jmpIf (h : isLabelName name = true) :
    parseInstr ⟨"JMPIF", 1⟩ [⟨"r29", 7⟩, ⟨name, 12⟩] =
      .ok ⟨.jmpIf, (29, .label name, ())⟩ := by
  apply parseInstr_eq_ok (by decide +kernel) rfl
  simp only [parseOperands, parseOperand, parseAddress_name h]
  rfl

theorem parseInstr_equal :
    parseInstr ⟨"EQUAL", 1⟩ [⟨"r31", 7⟩, ⟨"r30", 12⟩, ⟨"r29", 17⟩] =
      .ok ⟨.equal, (31, 30, 29, ())⟩ :=
  parseInstr_eq_ok (by decide +kernel) rfl rfl

/-! ## Section 3: The items of its lines -/

/-- A row of tokens that starts with neither `pub` nor a definition defines no label. -/
theorem splitLabel_of_not_defines {first : Token} (rest : List Token) (hpub : first.text ≠ "pub")
    (hname : definedName? first = none) : splitLabel (first :: rest) = (none, first :: rest) := by
  have hbeq : (first.text == "pub") = false := beq_false_of_ne hpub
  unfold splitLabel
  simp only [hbeq, hname]

/-- A line that holds only an instruction. -/
theorem items_cons_statement (line : SourceLine) {rest : List SourceLine} {its : List Item}
    {head : Token} {operands : List Token} {i : Instr Address}
    (htokens : tokenize line.number line.text = .ok (head :: operands))
    (hpub : head.text ≠ "pub") (hname : definedName? head = none)
    (hparse : parseInstr head operands = .ok i) (hrest : items rest = .ok its) :
    items (line :: rest) = .ok (.statement ⟨line.number, head.column, i⟩ :: its) := by
  have hsplit := splitLabel_of_not_defines operands hpub hname
  unfold items SourceLine.items
  simp only [htokens, hsplit, hrest, statementOf, hparse, bind, Except.bind]
  rfl

/-- The lines that compare the selector with a name read back. -/
theorem items_dispatchTo (h : isLabelName name = true) {rest : List SourceLine} {its : List Item}
    (hrest : items rest = .ok its) :
    items ((dispatchTo name).map (fun text => ⟨0, text⟩) ++ rest) =
      .ok ((dispatchCase name).map added ++ its) := by
  have hequal : tokenize 0 "EQUAL r31, r30, r29" =
      .ok [⟨"EQUAL", 1⟩, ⟨"r31", 7⟩, ⟨"r30", 12⟩, ⟨"r29", 17⟩] := rfl
  have hthird := items_cons_statement ⟨0, "JMPIF r29, " ++ name⟩
    (tokenize_jmpIf h) (by decide) (by decide) (parseInstr_jmpIf h) hrest
  have hsecond := items_cons_statement ⟨0, "EQUAL r31, r30, r29"⟩
    hequal (by decide) (by decide) parseInstr_equal hthird
  exact items_cons_statement ⟨0, "LOAD r30, \"" ++ name ++ "\""⟩
    (tokenize_load h) (by decide) (by decide) (parseInstr_load h) hsecond

theorem items_flatMap_dispatchTo {names : List String}
    (h : ∀ name ∈ names, isLabelName name = true) {rest : List SourceLine} {its : List Item}
    (hrest : items rest = .ok its) :
    items ((names.flatMap dispatchTo).map (fun text => ⟨0, text⟩) ++ rest) =
      .ok ((names.flatMap dispatchCase).map added ++ its) := by
  induction names with
  | nil => exact hrest
  | cons name names ih =>
    have htail := ih fun n hn => h n (List.mem_cons_of_mem name hn)
    have hcase := items_dispatchTo (h name List.mem_cons_self) htail
    simpa only [List.flatMap_cons, List.map_append, List.append_assoc] using hcase

/-- The lines of the dispatcher read back. -/
theorem items_dispatcher {names : List String} (h : ∀ name ∈ names, isLabelName name = true) :
    items (dispatcher names) = .ok ((dispatch names).map added) := by
  unfold dispatcher dispatch
  by_cases hnames : names.isEmpty = true
  · rw [if_pos hnames, if_pos hnames]
    rfl
  · rw [if_neg hnames, if_neg hnames]
    have hpop : tokenize 0 "POP r31" = .ok [⟨"POP", 1⟩, ⟨"r31", 5⟩] := rfl
    have hret : tokenize 0 "RET" = .ok [⟨"RET", 1⟩] := rfl
    have hparsePop : parseInstr ⟨"POP", 1⟩ [⟨"r31", 5⟩] = .ok ⟨.pop, (31, ())⟩ :=
      parseInstr_eq_ok (by decide +kernel) rfl rfl
    have hparseRet : parseInstr ⟨"RET", 1⟩ [] = .ok ⟨.ret, ()⟩ :=
      parseInstr_eq_ok (by decide +kernel) rfl rfl
    have hnone : items [] = .ok [] := rfl
    have hlast := items_cons_statement ⟨0, "RET"⟩ hret (by decide) (by decide) hparseRet hnone
    have hcases := items_flatMap_dispatchTo h hlast
    have hall := items_cons_statement ⟨0, "POP r31"⟩ hpop (by decide) (by decide) hparsePop hcases
    simpa [added, addedStatement] using hall

/-! ## Section 4: The names it compares with -/

/-- The names of the public labels among items. -/
def publicOf (its : List Item) : List String :=
  ((definitions its).filter fun d => d.1.isPublic).map fun d => d.1.name

/-- The program of a source with these items: the dispatcher to its public labels, then
    its own items. -/
def withDispatcher (own : List Item) : List Item :=
  (dispatch (publicOf own)).map added ++ own

theorem publicOf_label (l : LabelDef) (its : List Item) :
    publicOf (.label l :: its) = if l.isPublic then l.name :: publicOf its else publicOf its := by
  unfold publicOf
  rw [definitions, List.filter_cons]
  split <;> rfl

theorem publicOf_statement (s : Statement) (its : List Item) :
    publicOf (.statement s :: its) = publicOf its := by
  unfold publicOf
  rw [definitions, List.filter_map, List.map_map]
  rfl

/-- The names that are collected for the dispatcher are those of the public labels. -/
theorem publicNames_of_items {lines : List SourceLine} {its : List Item}
    (h : items lines = .ok its) : publicNames lines = .ok (publicOf its) := by
  induction lines generalizing its with
  | nil =>
    cases h
    rfl
  | cons line rest ih =>
    obtain ⟨front, hfront, h⟩ := Except.bind_eq_ok.mp h
    obtain ⟨back, hback, heq⟩ := Except.bind_eq_ok.mp h
    cases heq
    obtain ⟨tokens, htokens, hline⟩ := Except.bind_eq_ok.mp hfront
    obtain ⟨statement, hstatement, heq⟩ := Except.bind_eq_ok.mp hline
    cases heq
    -- whatever stands behind its label, the line has at most one name
    have hskip : publicOf (statement ++ back) = publicOf back := by
      unfold statementOf at hstatement
      split at hstatement
      · cases hstatement
        rfl
      · split at hstatement
        · cases hstatement
        · cases hstatement
          exact publicOf_statement _ back
    unfold publicNames
    simp only [htokens, ih hback, bind, Except.bind]
    cases hlabel : (splitLabel tokens).1 with
    | none =>
      simp only [Option.toList_none, List.map_nil, List.nil_append, hskip]
      rfl
    | some label =>
      simp only [Option.toList_some, List.map_cons, List.map_nil, List.cons_append, List.nil_append,
        publicOf_label, hskip]
      rfl

/-- Every public label is defined. -/
theorem exists_of_mem_publicOf {name : String} {its : List Item} (h : name ∈ publicOf its) :
    ∃ l k, (l, k) ∈ definitions its ∧ l.isPublic = true ∧ l.name = name := by
  obtain ⟨⟨l, k⟩, hmem, rfl⟩ := List.mem_map.mp h
  obtain ⟨hl, hpublic⟩ := List.mem_filter.mp hmem
  exact ⟨l, k, hl, hpublic, rfl⟩

/-- Lines behind their own dispatcher have the items that `withDispatcher` says, if all their
    labels have names.  Only then is it known that the dispatcher reads back. -/
theorem items_withDispatcher {names : List String} {lines : List SourceLine} {its : List Item}
    (hnames : publicNames lines = .ok names) (h : items (dispatcher names ++ lines) = .ok its)
    (hvalid : ∀ e ∈ definitions its, isLabelName e.1.name = true) :
    ∃ own, items lines = .ok own ∧ names = publicOf own ∧ its = withDispatcher own := by
  obtain ⟨generated, own, hgenerated, hown, rfl⟩ := items_append.mp h
  cases hnames.symm.trans (publicNames_of_items hown)
  have hpublic : ∀ name ∈ publicOf own, isLabelName name = true := by
    intro name hname
    obtain ⟨l, k, hl, -, rfl⟩ := exists_of_mem_publicOf hname
    exact hvalid _ (mem_definitions_append generated hl)
  cases hgenerated.symm.trans (items_dispatcher hpublic)
  exact ⟨own, hown, rfl, rfl⟩

theorem statementsOf_withDispatcher (own : List Item) :
    statementsOf (withDispatcher own) =
      (dispatch (publicOf own)).map addedStatement ++ statementsOf own := by
  unfold withDispatcher
  rw [statementsOf_append, statementsOf_map_added]

/-- The dispatcher defines no labels; it only moves those of the source. -/
theorem definitions_withDispatcher (own : List Item) :
    definitions (withDispatcher own) =
      (definitions own).map fun d => (d.1, d.2 + (dispatch (publicOf own)).length) := by
  unfold withDispatcher
  induction dispatch (publicOf own) with
  | nil => simp
  | cons i is ih => simp [added, definitions, ih, Nat.add_assoc]

end ContractVM.Assembly
