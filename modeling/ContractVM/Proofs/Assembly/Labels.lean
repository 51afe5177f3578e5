import ContractVM.Proofs.Assembly.Dispatcher
import ContractVM.Proofs.Assembly.Placement

/-! # Labels in assembled scripts

    What a label stands for in the script of a source, wherever it is written down:

    * **In the code**: the place of the next instruction, or the end.
    * **In the tables**: `debug.labels` and, for a public label, `methods`.
    * **In operands**: the four bytes of every jump and call that names it, before or
      behind its definition. -/

namespace ContractVM.Assembly

/-! ## Section 1: The code around a placed instruction -/

variable {placed : List (Instr UInt32)}

/-- From the place of an instruction on, the code consists of that instruction and the
    ones behind it. -/
theorem drop_startOf (placed : List (Instr UInt32)) (k : Nat) :
    (placed.flatMap Instr.encode).drop (startOf placed k) =
      (placed.drop k).flatMap Instr.encode := by
  conv_lhs => rw [← List.take_append_drop k placed]
  rw [List.flatMap_append]
  unfold startOf
  rw [List.take_append_drop, List.drop_left]

/-- The code splits around an instruction. -/
theorem flatMap_encode_split {j : Nat} {i : Instr UInt32} (h : placed[j]? = some i) :
    placed.flatMap Instr.encode =
      (placed.take j).flatMap Instr.encode ++ i.encode ++
        (placed.drop (j + 1)).flatMap Instr.encode := by
  obtain ⟨hj, rfl⟩ := List.getElem?_eq_some_iff.mp h
  conv_lhs => rw [← List.take_append_drop j placed, List.drop_eq_getElem_cons hj]
  simp only [List.flatMap_append, List.flatMap_cons, List.append_assoc]

theorem startOf_succ {j : Nat} {i : Instr UInt32} (h : placed[j]? = some i) :
    startOf placed (j + 1) = startOf placed j + i.encode.length := by
  unfold startOf
  rw [List.take_add_one, h, Option.toList_some, List.flatMap_append, List.length_append,
    List.flatMap_singleton]

/-- The statement of each number is placed as the instruction of that number. -/
theorem exists_placed {labels : List (String × Nat)} {ss : List Statement}
    (h : List.Forall₂ (Statement.Resolves labels) ss placed) {j : Nat} {s : Statement}
    (hs : ss[j]? = some s) : ∃ i, placed[j]? = some i ∧ s.Resolves labels i := by
  obtain ⟨hlen, hget⟩ := List.forall₂_iff_get.mp h
  obtain ⟨hj, rfl⟩ := List.getElem?_eq_some_iff.mp hs
  have hj' : j < placed.length := by omega
  exact ⟨placed[j], List.getElem?_eq_some_iff.mpr ⟨hj', rfl⟩, hget j hj hj'⟩

/-- Every placed instruction is one of the statements. -/
theorem exists_statement {labels : List (String × Nat)} {ss : List Statement}
    (h : List.Forall₂ (Statement.Resolves labels) ss placed) {i : Instr UInt32}
    (hi : i ∈ placed) : ∃ s ∈ ss, s.Resolves labels i := by
  induction h with
  | nil => cases hi
  | @cons s j ss placed hj _ ih =>
    rcases List.mem_cons.mp hi with rfl | hi
    · exact ⟨s, List.mem_cons_self, hj⟩
    · obtain ⟨s', hs', hresolves⟩ := ih hi
      exact ⟨s', List.mem_cons_of_mem s hs', hresolves⟩

/-! ## Section 2: Assembled sources -/

/-- The script of a source is laid out as the items of the source say, behind the
    dispatcher to its public labels. -/
theorem assemble_laidOut {source : String} {script : Script} (h : assemble source = .ok script) :
    ∃ own placed, items (numbered 1 (Text.lines source)) = .ok own ∧
      LaidOut (withDispatcher own) placed script := by
  unfold assemble at h
  obtain ⟨names, hnames, hlayout⟩ := Except.bind_eq_ok.mp h
  obtain ⟨program, placed, hprogram, hlaid⟩ := layout_laidOut hlayout
  obtain ⟨own, hown, -, rfl⟩ := items_withDispatcher hnames hprogram hlaid.names_valid
  exact ⟨own, placed, hown, hlaid⟩

/-- A line that defines no label is its instruction. -/
theorem Draft.addLine_eq_append (d : Draft) {line : SourceLine} {head : Token}
    {operands : List Token} (htokens : tokenize line.number line.text = .ok (head :: operands))
    (hpub : head.text ≠ "pub") (hname : definedName? head = none) :
    d.addLine line = d.append line.number (head :: operands) := by
  have hsplit := splitLabel_of_not_defines operands hpub hname
  unfold addLine
  rw [htokens]
  simp only [bind, Except.bind, hsplit]
  rfl

/-- A source of one line with one instruction, which jumps to no label, is the code of this
    instruction if offsets can reach its end. -/
theorem assemble_statement {source : String} {head : Token} {operands : List Token}
    {i : Instr Address} {j : Instr UInt32} (hlines : Text.lines source = [source])
    (htokens : tokenize 1 source = .ok (head :: operands)) (hpub : head.text ≠ "pub")
    (hname : definedName? head = none) (hparse : parseInstr head operands = .ok i)
    (hplace : i.mapAddress (Address.resolve []) = .ok j) :
    assemble source =
      if UInt32.size ≤ i.encodedLength then .error ⟨1, head.column, .tooLarge⟩
      else .ok ⟨j.encode.toArray, [], some ⟨[], [(0, 1)]⟩⟩ := by
  have hitems : items [⟨1, source⟩] = .ok [.statement ⟨1, head.column, i⟩] :=
    items_cons_statement ⟨1, source⟩ htokens hpub hname hparse rfl
  have hnames : publicNames [⟨1, source⟩] = .ok [] := publicNames_of_items hitems
  have hassemble : assemble source = layout [⟨1, source⟩] := by
    unfold assemble
    rw [hlines]
    show (publicNames [⟨1, source⟩] >>= fun names =>
      layout (dispatcher names ++ [⟨1, source⟩])) = _
    rw [hnames]
    rfl
  have hline : Draft.empty.addLine ⟨1, source⟩ = Draft.empty.append 1 (head :: operands) :=
    Draft.empty.addLine_eq_append htokens hpub hname
  have himage : Image.empty.place [] ⟨1, head.column, i⟩ = .ok ⟨j.encode.toArray, [(0, 1)]⟩ := by
    have hcode : Image.empty.code ++ j.encode = j.encode.toArray :=
      Array.toList_inj.mp (by simp [Image.empty])
    unfold Image.place
    rw [hplace, ← hcode]
    rfl
  rw [hassemble]
  unfold layout
  rw [List.foldlM_cons, hline]
  unfold Draft.append
  simp only [hparse, Draft.empty, Nat.zero_add]
  by_cases hsize : UInt32.size ≤ i.encodedLength
  · rw [if_pos hsize, if_pos hsize]
    rfl
  · rw [if_neg hsize, if_neg hsize]
    show ((Image.empty.place [] ⟨1, head.column, i⟩ >>= fun image =>
      [].foldlM (Image.place []) image) >>= fun image =>
        Except.ok (Script.mk image.code [] (some ⟨sortedLabels [], image.lines.reverse⟩))) = _
    rw [himage, sortedLabels, List.mergeSort_nil]
    rfl

/-- The four bytes of code in front of an offset. -/
def wordBefore (code : Array UInt8) (offset : Nat) : List UInt8 :=
  (code.extract (offset - 4) offset).toList

/-- Among methods with names of their own, each is found by its name. -/
theorem methodOffset?_of_mem {script : Script} {name : String} {offset : UInt32}
    (hnd : (script.methods.map Prod.fst).Nodup) (hmem : (name, offset) ∈ script.methods) :
    script.methodOffset? name = some offset := by
  unfold Script.methodOffset?
  cases hfind : script.methods.find? fun entry => entry.1 == name with
  | none =>
    have hne := List.find?_eq_none.mp hfind _ hmem
    simp at hne
  | some entry =>
    have hname : entry.1 = name := by simpa using List.find?_some hfind
    have heq := List.inj_on_of_nodup_map hnd (List.mem_of_find?_eq_some hfind) hmem hname
    rw [heq, Option.map_some]

namespace LaidOut

variable {program : List Item} {script : Script}

theorem length_code (h : LaidOut program placed script) :
    (placed.flatMap Instr.encode).length = script.code.size := by
  rw [← h.code, Array.length_toList]

theorem startOf_le_size (h : LaidOut program placed script) (k : Nat) :
    startOf placed k ≤ script.code.size := by
  rw [← h.length_code]
  exact startOf_le placed k

theorem startOf_lt (h : LaidOut program placed script) (k : Nat) :
    startOf placed k < UInt32.size :=
  Nat.lt_of_le_of_lt (h.startOf_le_size k) h.size_lt

/-- A place of the code survives being written as an offset. -/
theorem toNat_ofNat_startOf (h : LaidOut program placed script) (k : Nat) :
    (UInt32.ofNat (startOf placed k)).toNat = startOf placed k := by
  rw [UInt32.toNat_ofNat', Nat.mod_eq_of_lt (h.startOf_lt k)]

theorem names_nodup' (h : LaidOut program placed script) :
    ((labelOffsets program placed).map Prod.fst).Nodup := by
  rw [labelOffsets, List.map_map]
  exact h.names_nodup

/-- A defined label resolves to the place of the next instruction. -/
theorem resolve_label (h : LaidOut program placed script) {l : LabelDef} {k : Nat}
    (hl : (l, k) ∈ definitions program) :
    Address.resolve (labelOffsets program placed) (.label l.name) =
      .ok (UInt32.ofNat (startOf placed k)) := by
  have hmem : (l.name, startOf placed k) ∈ labelOffsets program placed :=
    List.mem_map.mpr ⟨(l, k), hl, rfl⟩
  unfold Address.resolve
  simp only [lookup_of_mem h.names_nodup' hmem]

/-- A label that resolves is defined. -/
theorem defined_of_resolve {name : String} {offset : UInt32}
    (hr : Address.resolve (labelOffsets program placed) (.label name) = .ok offset) :
    ∃ l k, (l, k) ∈ definitions program ∧ l.name = name ∧
      offset = UInt32.ofNat (startOf placed k) := by
  simp only [Address.resolve] at hr
  split at hr
  · next place hlookup =>
    cases hr
    obtain ⟨⟨l, k⟩, hl, hlk⟩ := List.mem_map.mp (mem_of_lookup hlookup)
    cases hlk
    exact ⟨l, k, hl, rfl, rfl⟩
  · cases hr

/-- The label table lists a label with the place of the next instruction, and with no
    other offset. -/
theorem mem_labels_iff (h : LaidOut program placed script) {debug : DebugInfo}
    (hdebug : script.debug = some debug) {l : LabelDef} {k : Nat}
    (hl : (l, k) ∈ definitions program) (offset : UInt32) :
    (l.name, offset) ∈ debug.labels ↔ offset = UInt32.ofNat (startOf placed k) := by
  obtain ⟨debug', hdebug', hperm, -⟩ := h.labels
  cases hdebug.symm.trans hdebug'
  have hmem : (l.name, startOf placed k) ∈ labelOffsets program placed :=
    List.mem_map.mpr ⟨(l, k), hl, rfl⟩
  rw [hperm.mem_iff]
  constructor
  · intro hin
    obtain ⟨e, he, heq⟩ := List.mem_map.mp hin
    obtain ⟨hname, rfl⟩ := Prod.mk.inj heq
    have hsame : (e.1, e.2) ∈ labelOffsets program placed := he
    rw [hname] at hsame
    have hplace := (lookup_of_mem h.names_nodup' hsame).symm.trans
      (lookup_of_mem h.names_nodup' hmem)
    rw [Option.some.inj hplace]
  · rintro rfl
    exact List.mem_map.mpr ⟨_, hmem, rfl⟩

/-- A public label is a method at the place of the next instruction. -/
theorem methodOffset?_eq (h : LaidOut program placed script) {l : LabelDef} {k : Nat}
    (hl : (l, k) ∈ definitions program) (hpublic : l.isPublic = true) :
    script.methodOffset? l.name = some (UInt32.ofNat (startOf placed k)) := by
  have hmem : (l.name, UInt32.ofNat (startOf placed k)) ∈ script.methods := by
    rw [h.methods]
    exact List.mem_map.mpr ⟨(l, k), List.mem_filter.mpr ⟨hl, hpublic⟩, rfl⟩
  -- the names of the methods are among those of all labels, so none comes twice
  have hnd : (script.methods.map Prod.fst).Nodup := by
    rw [h.methods, List.map_map]
    exact h.names_nodup.sublist (List.filter_sublist.map _)
  exact methodOffset?_of_mem hnd hmem

/-- Every jump to a label holds, in its last four bytes, the place of that label. -/
theorem wordBefore_eq (h : LaidOut program placed script) {l : LabelDef} {k : Nat}
    (hl : (l, k) ∈ definitions program) {j : Nat} {s : Statement}
    (hs : (statementsOf program)[j]? = some s) (htarget : s.instr.target? = some (.label l.name)) :
    wordBefore script.code (startOf placed (j + 1)) =
      Codec.u32.encode (UInt32.ofNat (startOf placed k)) := by
  obtain ⟨i, hi, hresolves⟩ := exists_placed h.resolved hs
  obtain ⟨offset, hoffset, hitarget⟩ := Instr.target?_mapAddress hresolves htarget
  cases hoffset.symm.trans (h.resolve_label hl)
  obtain ⟨front, hencode⟩ := Instr.encode_of_target? hitarget
  -- the code up to the target, the target, and the code behind it
  let before := (placed.take j).flatMap Instr.encode ++ front
  let word := Codec.u32.encode (UInt32.ofNat (startOf placed k))
  have hword : word.length = 4 := length_u32 _
  have hcode : script.code.toList =
      before ++ (word ++ (placed.drop (j + 1)).flatMap Instr.encode) := by
    rw [h.code, flatMap_encode_split hi, hencode]
    simp only [before, word, List.append_assoc]
  have hstop : startOf placed (j + 1) = before.length + 4 := by
    rw [startOf_succ hi, hencode, List.length_append, length_u32, List.length_append]
    exact (Nat.add_assoc _ _ _).symm
  unfold wordBefore
  rw [Array.toList_extract, hcode, hstop, List.extract_eq_take_drop, Nat.add_sub_cancel,
    List.drop_left, Nat.add_sub_cancel_left, ← hword, List.take_left]

end LaidOut

/-! ## Section 3: The two passes agree -/

/-- **Labels are placed.** In the script of any source, a label stands for the offset at
    which the second pass places the instruction behind it, or for the end of the code;
    the dispatcher counts.  The label table, the method table, and the operands of all
    jumps and calls that name the label hold this very offset.  The label table lists
    every label of the source once, by offset and then by name; the method table lists
    the public ones in the order of the source. -/
theorem labels_are_placed {source : String} {script : Script} (h : assemble source = .ok script) :
    ∃ own placed debug,
      items (numbered 1 (Text.lines source)) = .ok own ∧
      script.debug = some debug ∧
      List.Forall₂ (Statement.Resolves (labelOffsets (withDispatcher own) placed))
        (statementsOf (withDispatcher own)) placed ∧
      script.code.toList = placed.flatMap Instr.encode ∧
      (∀ front l back, withDispatcher own = front ++ .label l :: back →
        ∃ offset : UInt32,
          offset.toNat = startOf placed (statementsOf front).length ∧
          script.code.toList.drop offset.toNat =
            (placed.drop (statementsOf front).length).flatMap Instr.encode ∧
          (statementsOf back = [] → offset.toNat = script.code.size) ∧
          (∀ o, (l.name, o) ∈ debug.labels ↔ o = offset) ∧
          (l.isPublic = true → script.methodOffset? l.name = some offset) ∧
          ∀ j s, (statementsOf (withDispatcher own))[j]? = some s →
            s.instr.target? = some (.label l.name) →
              wordBefore script.code (startOf placed (j + 1)) =
                LittleEndian.bytes 4 offset.toNat) ∧
      (∀ s ∈ statementsOf (withDispatcher own), ∀ name, s.instr.target? = some (.label name) →
        ∃ d ∈ definitions own, d.1.name = name) ∧
      (debug.labels.map Prod.fst).Perm ((definitions own).map fun d => d.1.name) ∧
      (debug.labels.map Prod.fst).Nodup ∧
      debug.labels.Pairwise LabelBefore ∧
      script.methods.map Prod.fst = publicOf own := by
  obtain ⟨own, placed, hown, hlaid⟩ := assemble_laidOut h
  obtain ⟨debug, hdebug, hperm, hsorted⟩ := hlaid.labels
  have hnames : (definitions (withDispatcher own)).map (fun d => d.1.name) =
      (definitions own).map fun d => d.1.name := by
    rw [definitions_withDispatcher, List.map_map]
    rfl
  have hlabels : (debug.labels.map Prod.fst).Perm ((definitions own).map fun d => d.1.name) := by
    have hfst := hperm.map Prod.fst
    rw [labelOffsets, List.map_map, List.map_map] at hfst
    rw [← hnames]
    exact hfst
  refine ⟨own, placed, debug, hown, hdebug, hlaid.resolved, hlaid.code, ?_, ?_, hlabels, ?_,
    hsorted, ?_⟩
  · intro front l back hsplit
    have hl : (l, (statementsOf front).length) ∈ definitions (withDispatcher own) :=
      mem_definitions.mpr ⟨front, back, hsplit, rfl⟩
    have hplace := hlaid.toNat_ofNat_startOf (statementsOf front).length
    refine ⟨_, hplace, ?_, ?_, hlaid.mem_labels_iff hdebug hl, hlaid.methodOffset?_eq hl, ?_⟩
    · rw [hplace, hlaid.code, drop_startOf]
    · intro hback
      have hlen : placed.length = (statementsOf front).length := by
        rw [← hlaid.resolved.length_eq, hsplit, statementsOf_append]
        simp only [statementsOf, hback, List.append_nil]
      rw [hplace, startOf_of_length_le (Nat.le_of_eq hlen), hlaid.length_code]
    · intro j s hs htarget
      exact hlaid.wordBefore_eq hl hs htarget
  · intro s hs name htarget
    obtain ⟨j, hj⟩ := List.mem_iff_getElem?.mp hs
    obtain ⟨i, -, hresolves⟩ := exists_placed hlaid.resolved hj
    obtain ⟨offset, hoffset, -⟩ := Instr.target?_mapAddress hresolves htarget
    obtain ⟨l, k, hl, hname, -⟩ := LaidOut.defined_of_resolve hoffset
    have hmem : l.name ∈ (definitions own).map fun d => d.1.name := by
      rw [← hnames]
      exact List.mem_map.mpr ⟨(l, k), hl, rfl⟩
    obtain ⟨d, hd, heq⟩ := List.mem_map.mp hmem
    exact ⟨d, hd, heq.trans hname⟩
  · rw [hlabels.nodup_iff, ← hnames]
    exact hlaid.names_nodup
  · rw [hlaid.methods, definitions_withDispatcher, List.map_map, List.filter_map, List.map_map]
    rfl

/-- Two labels that jump to one another's instructions, and one behind all code. -/
theorem loop_labels_are_placed :
    let source := "start:\nJMP end\npub main:\nJMP start\nend:"
    ∃ script own debug, assemble source = .ok script ∧
      items (numbered 1 (Text.lines source)) = .ok own ∧ script.debug = some debug ∧
      script.methods = [("main", 33)] ∧ script.code.size = 38 ∧
      publicOf own = ["main"] ∧
      (debug.labels.map Prod.fst).Perm ((definitions own).map fun d => d.1.name) ∧
      debug.labels.Pairwise LabelBefore := by
  intro source
  have hrun : (assemble source).toOption.map (fun s => (s.methods, s.code.size)) =
      some ([("main", 33)], 38) := by
    decide +kernel
  cases h : assemble source with
  | error e =>
    rw [h] at hrun
    cases hrun
  | ok script =>
    rw [h] at hrun
    obtain ⟨hmethods, hsize⟩ := Prod.mk.inj (Option.some.inj hrun)
    obtain ⟨own, placed, debug, hown, hdebug, -, -, -, -, hnames, -, hsorted, hpublic⟩ :=
      labels_are_placed h
    have hmain : publicOf own = ["main"] := by
      rw [← hpublic, hmethods]
      rfl
    exact ⟨script, own, debug, rfl, hown, hdebug, hmethods, hsize, hmain, hnames, hsorted⟩

end ContractVM.Assembly
