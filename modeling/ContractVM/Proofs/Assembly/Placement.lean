import Mathlib.Data.List.Forall2
import Mathlib.Data.List.Nodup
import ContractVM.Proofs.Assembly.Items
import ContractVM.Proofs.Isa.Encoding

/-! # Where instructions are placed

    The first pass gives each label an offset before any label is known; the second one
    places the instructions.  `LaidOut program placed script` says how the three belong
    together, in terms of the second pass alone: a label stands for the offset at which
    the next instruction is placed.

    * **The first pass** measures what the second one will place.
    * **The second pass** places instructions one behind another.
    * **`layout_laidOut`**: every script that is assembled is laid out so. -/

namespace ContractVM.Assembly

/-! ## Section 1: Laid-out scripts -/

/-- The offset at which instruction number `k` is placed, and the end of the code if
    there are only `k`. -/
def startOf (placed : List (Instr UInt32)) (k : Nat) : Nat :=
  ((placed.take k).flatMap Instr.encode).length

theorem startOf_le (placed : List (Instr UInt32)) (k : Nat) :
    startOf placed k ≤ (placed.flatMap Instr.encode).length := by
  unfold startOf
  conv_rhs => rw [← List.take_append_drop k placed]
  rw [List.flatMap_append, List.length_append]
  omega

/-- Behind the last instruction the code ends. -/
theorem startOf_of_length_le {placed : List (Instr UInt32)} {k : Nat} (h : placed.length ≤ k) :
    startOf placed k = (placed.flatMap Instr.encode).length := by
  unfold startOf
  rw [List.take_of_length_le h]

/-- The labels of a program, each with the offset at which the instruction behind it is
    placed. -/
def labelOffsets (program : List Item) (placed : List (Instr UInt32)) : List (String × Nat) :=
  (definitions program).map fun d => (d.1.name, startOf placed d.2)

/-- The instruction is the statement with its label resolved. -/
def Statement.Resolves (labels : List (String × Nat)) (s : Statement) (i : Instr UInt32) : Prop :=
  s.instr.mapAddress (Address.resolve labels) = .ok i

/-- The order of a table of labels: by offset, those of one offset by name. -/
def LabelBefore (a b : NamedOffset) : Prop :=
  a.2 < b.2 ∨ (a.2 = b.2 ∧ a.1 < b.1)

/-- The script of a program whose instructions are placed as `placed`. -/
structure LaidOut (program : List Item) (placed : List (Instr UInt32)) (script : Script) :
    Prop where
  /-- Each instruction is placed with its label resolved to a placed offset. -/
  resolved : List.Forall₂ (Statement.Resolves (labelOffsets program placed))
    (statementsOf program) placed
  /-- The code consists of the placed instructions. -/
  code : script.code.toList = placed.flatMap Instr.encode
  size_lt : script.code.size < UInt32.size
  /-- No label is defined twice. -/
  names_nodup : ((definitions program).map fun d => d.1.name).Nodup
  names_valid : ∀ d ∈ definitions program, isLabelName d.1.name = true
  /-- The methods are the public labels, in their order. -/
  methods : script.methods =
    ((definitions program).filter fun d => d.1.isPublic).map
      fun d => (d.1.name, UInt32.ofNat (startOf placed d.2))
  /-- The debug information lists every label once, in the order of `LabelBefore`. -/
  labels : ∃ debug, script.debug = some debug ∧
    debug.labels.Perm
      ((labelOffsets program placed).map fun e => (e.1, UInt32.ofNat e.2)) ∧
    debug.labels.Pairwise LabelBefore

/-! ## Section 2: What the first pass measures -/

/-- The length of the code of instructions. -/
def codeLength : List Statement → Nat
  | [] => 0
  | s :: ss => s.instr.encodedLength + codeLength ss

namespace Draft

variable {d d' : Draft} {its : List Item}

theorem Takes.statements_eq (h : Takes d its d') :
    d'.statements = (statementsOf its).reverse ++ d.statements := by
  induction h with
  | nil d => rfl
  | @cons d d' item its ha ht ih =>
    rw [ih]
    cases item with
    | label l => rfl
    | statement s => simp [add, statementsOf]

theorem Takes.size_eq (h : Takes d its d') : d'.size = d.size + codeLength (statementsOf its) := by
  induction h with
  | nil d => rfl
  | @cons d d' item its ha ht ih =>
    rw [ih]
    cases item with
    | label l => rfl
    | statement s => simp only [add, statementsOf, codeLength, Nat.add_assoc]

/-- The code of a draft fits the offsets. -/
theorem Takes.size_lt (h : Takes d its d') (hd : d.size < UInt32.size) :
    d'.size < UInt32.size := by
  induction h with
  | nil d => exact hd
  | @cons d d' item its ha ht ih =>
    apply ih
    cases item with
    | label l => exact hd
    | statement s => exact ha

/-- The offset that the first pass gives to a label behind `k` instructions. -/
theorem Takes.labels_eq (h : Takes d its d') :
    d'.labels = ((definitions its).map fun e =>
      (e.1.name, d.size + codeLength ((statementsOf its).take e.2))).reverse ++ d.labels := by
  induction h with
  | nil d => rfl
  | @cons d d' item its ha ht ih =>
    rw [ih]
    cases item with
    -- no instruction stands between the draft and this label
    | label l => simp [add, definitions, statementsOf, codeLength]
    | statement s =>
      simp [add, definitions, statementsOf, codeLength, Nat.add_assoc]

theorem Takes.methods_eq (h : Takes d its d') :
    d'.methods = (((definitions its).filter fun e => e.1.isPublic).map fun e =>
      (e.1.name, UInt32.ofNat (d.size + codeLength ((statementsOf its).take e.2)))).reverse ++
        d.methods := by
  induction h with
  | nil d => rfl
  | @cons d d' item its ha ht ih =>
    rw [ih]
    cases item with
    | label l =>
      by_cases hpublic : l.isPublic = true
      · simp [add, definitions, statementsOf, codeLength, hpublic]
      · simp [add, definitions, statementsOf, hpublic]
    | statement s =>
      simp [add, definitions, statementsOf, codeLength, Nat.add_assoc, List.filter_map,
        Function.comp_def]

theorem Takes.names_valid (h : Takes d its d') :
    ∀ e ∈ definitions its, isLabelName e.1.name = true := by
  induction h with
  | nil d => simp [definitions]
  | @cons d d' item its ha ht ih =>
    cases item with
    | label l =>
      intro e he
      rcases List.mem_cons.mp he with rfl | hrest
      · exact ha.1
      · exact ih e hrest
    | statement s =>
      intro e he
      obtain ⟨e', he', rfl⟩ := List.mem_map.mp he
      exact ih e' he'

/-- A label is taken only under a new name. -/
theorem Takes.names_nodup (h : Takes d its d') (hd : (d.labels.map Prod.fst).Nodup) :
    (d'.labels.map Prod.fst).Nodup := by
  induction h with
  | nil d => exact hd
  | @cons d d' item its ha ht ih =>
    apply ih
    cases item with
    | label l =>
      have hnew : l.name ∉ d.labels.map Prod.fst := by
        intro hmem
        obtain ⟨⟨name, place⟩, he, rfl⟩ := List.mem_map.mp hmem
        exact not_mem_of_lookup ha.2 place he
      exact List.nodup_cons.mpr ⟨hnew, hd⟩
    | statement s => exact hd

end Draft

/-! ## Section 3: What the second pass places -/

theorem encode_length_of_resolves {labels : List (String × Nat)} {s : Statement}
    {i : Instr UInt32} (h : s.Resolves labels i) : i.encode.length = s.instr.encodedLength := by
  rw [i.length_encode]
  exact Instr.length_mapAddress h

/-- The second pass places its instructions one behind another. -/
theorem foldlM_place_eq_ok {labels : List (String × Nat)} {ss : List Statement}
    {image image' : Image} (h : ss.foldlM (Image.place labels) image = .ok image') :
    ∃ placed, List.Forall₂ (Statement.Resolves labels) ss placed ∧
      image'.code.toList = image.code.toList ++ placed.flatMap Instr.encode := by
  induction ss generalizing image with
  | nil =>
    cases h
    exact ⟨[], .nil, by simp⟩
  | cons s ss ih =>
    rw [List.foldlM_cons, Except.bind_eq_ok] at h
    obtain ⟨image₁, hplace, hrest⟩ := h
    obtain ⟨placed, hforall, hcode⟩ := ih hrest
    unfold Image.place at hplace
    split at hplace
    · cases hplace
    · next i hi =>
      cases hplace
      refine ⟨i :: placed, .cons hi hforall, ?_⟩
      rw [hcode]
      simp

/-- The first pass measures the offsets of the second one. -/
theorem codeLength_eq_startOf {labels : List (String × Nat)} {ss : List Statement}
    {placed : List (Instr UInt32)} (h : List.Forall₂ (Statement.Resolves labels) ss placed)
    (k : Nat) : codeLength (ss.take k) = startOf placed k := by
  induction h generalizing k with
  | nil => simp [codeLength, startOf]
  | @cons s i ss placed hi _ ih =>
    cases k with
    | zero => rfl
    | succ k =>
      rw [List.take_succ_cons, codeLength, ih k]
      unfold startOf
      rw [List.take_succ_cons, List.flatMap_cons, List.length_append, encode_length_of_resolves hi]

/-- In all, it measures the code of the second one. -/
theorem codeLength_eq_length {labels : List (String × Nat)} {ss : List Statement}
    {placed : List (Instr UInt32)} (h : List.Forall₂ (Statement.Resolves labels) ss placed) :
    codeLength ss = (placed.flatMap Instr.encode).length := by
  have hall := codeLength_eq_startOf h ss.length
  rw [List.take_length] at hall
  rw [hall, startOf_of_length_le (Nat.le_of_eq h.length_eq.symm)]

/-! ## Section 4: Tables of labels -/

/-- In a table without double names the order does not matter. -/
theorem lookup_reverse {labels : List (String × Nat)} (hnd : (labels.map Prod.fst).Nodup)
    (name : String) : labels.reverse.lookup name = labels.lookup name := by
  cases h : labels.lookup name with
  | none =>
    rw [List.lookup_eq_none_iff] at h ⊢
    intro e he
    exact h e (List.mem_reverse.mp he)
  | some place =>
    apply lookup_of_mem
    · rw [List.map_reverse]
      exact List.nodup_reverse.mpr hnd
    · exact List.mem_reverse.mpr (mem_of_lookup h)

theorem resolve_reverse {labels : List (String × Nat)} (hnd : (labels.map Prod.fst).Nodup) :
    Address.resolve labels.reverse = Address.resolve labels := by
  funext a
  cases a with
  | offset n => rfl
  | label name => simp only [Address.resolve, lookup_reverse hnd]

/-- The test by which labels are sorted. -/
def labelAtMost (a b : String × Nat) : Bool :=
  decide (a.2 < b.2) || (a.2 == b.2 && decide (a.1 ≤ b.1))

theorem labelAtMost_iff {a b : String × Nat} :
    labelAtMost a b = true ↔ a.2 < b.2 ∨ (a.2 = b.2 ∧ a.1 ≤ b.1) := by
  simp [labelAtMost]

theorem labelAtMost_trans (a b c : String × Nat) (hab : labelAtMost a b = true)
    (hbc : labelAtMost b c = true) : labelAtMost a c = true := by
  rw [labelAtMost_iff] at *
  rcases hab with hlt | ⟨heq, hle⟩
  · rcases hbc with hlt' | ⟨heq', _⟩
    · exact .inl (Nat.lt_trans hlt hlt')
    · exact .inl (by omega)
  · rcases hbc with hlt' | ⟨heq', hle'⟩
    · exact .inl (by omega)
    · exact .inr ⟨heq.trans heq', String.le_trans hle hle'⟩

theorem labelAtMost_total (a b : String × Nat) : (labelAtMost a b || labelAtMost b a) = true := by
  rw [Bool.or_eq_true, labelAtMost_iff, labelAtMost_iff]
  rcases Nat.lt_trichotomy a.2 b.2 with hlt | heq | hgt
  · exact .inl (.inl hlt)
  · rcases String.le_total a.1 b.1 with hle | hle
    · exact .inl (.inr ⟨heq, hle⟩)
    · exact .inr (.inr ⟨heq.symm, hle⟩)
  · exact .inr (.inl hgt)

theorem sortedLabels_perm (labels : List (String × Nat)) :
    (sortedLabels labels).Perm (labels.map fun e => (e.1, UInt32.ofNat e.2)) :=
  (List.mergeSort_perm labels _).map _

/-- Labels with names of their own are sorted strictly, if their offsets fit. -/
theorem sortedLabels_pairwise {labels : List (String × Nat)}
    (hnd : (labels.map Prod.fst).Nodup) (hfit : ∀ e ∈ labels, e.2 < UInt32.size) :
    (sortedLabels labels).Pairwise LabelBefore := by
  have hsorted : (labels.mergeSort labelAtMost).Pairwise fun a b => labelAtMost a b = true :=
    List.pairwise_mergeSort labelAtMost_trans labelAtMost_total labels
  have hperm := List.mergeSort_perm labels labelAtMost
  have hnames : ((labels.mergeSort labelAtMost).map Prod.fst).Nodup :=
    (hperm.map Prod.fst).nodup_iff.mpr hnd
  -- of two labels at one offset, the second has a greater name, for it has another one
  have hboth := hsorted.and (List.pairwise_map.mp hnames)
  apply List.pairwise_map.mpr
  apply hboth.imp_of_mem
  intro a b ha hb ⟨hle, hne⟩
  have hfita := hfit a (hperm.mem_iff.mp ha)
  have hfitb := hfit b (hperm.mem_iff.mp hb)
  unfold LabelBefore
  rw [UInt32.lt_iff_toNat_lt, ← UInt32.toNat_inj, UInt32.toNat_ofNat', UInt32.toNat_ofNat',
    Nat.mod_eq_of_lt hfita, Nat.mod_eq_of_lt hfitb]
  rcases labelAtMost_iff.mp hle with hlt | ⟨heq, hle⟩
  · exact .inl hlt
  · exact .inr ⟨heq, Std.lt_of_le_of_ne hle hne⟩

/-! ## Section 5: Every assembled script is laid out -/

/-- What both passes make of lines is laid out as their items say. -/
theorem layout_laidOut {lines : List SourceLine} {script : Script}
    (h : layout lines = .ok script) :
    ∃ program placed, items lines = .ok program ∧ LaidOut program placed script := by
  unfold layout at h
  obtain ⟨draft, hdraft, h⟩ := Except.bind_eq_ok.mp h
  obtain ⟨image, himage, heq⟩ := Except.bind_eq_ok.mp h
  cases heq
  obtain ⟨program, hprogram, htakes⟩ := Draft.foldlM_addLine_eq_ok.mp hdraft
  have hstatements := htakes.statements_eq
  rw [Draft.empty, List.append_nil] at hstatements
  rw [hstatements, List.reverse_reverse] at himage
  obtain ⟨placed, hplaced, hcode⟩ := foldlM_place_eq_ok himage
  -- the second pass resolves labels with the table of the first, which it thereby confirms
  have hstart := codeLength_eq_startOf hplaced
  -- the labels of the draft, with the offsets of the second pass
  have hlabels : draft.labels = (labelOffsets program placed).reverse := by
    have hl := htakes.labels_eq
    simpa [Draft.empty, hstart, labelOffsets] using hl
  have hnames : ((labelOffsets program placed).map Prod.fst).Nodup := by
    have hn := htakes.names_nodup List.nodup_nil
    rwa [hlabels, List.map_reverse, List.nodup_reverse] at hn
  have hsize : (placed.flatMap Instr.encode).length < UInt32.size := by
    have hs := htakes.size_eq
    have hlt := htakes.size_lt (by decide)
    rw [codeLength_eq_length hplaced] at hs
    simp only [Draft.empty] at hs
    omega
  have hcode' : image.code.toList = placed.flatMap Instr.encode := by
    rw [hcode]; rfl
  refine ⟨program, placed, hprogram, ?_, hcode', ?_, ?_, htakes.names_valid, ?_, ?_⟩
  · apply hplaced.imp
    intro s i hresolves
    unfold Statement.Resolves at hresolves ⊢
    rwa [hlabels, resolve_reverse hnames] at hresolves
  · rw [← Array.length_toList, hcode']
    exact hsize
  · rw [labelOffsets, List.map_map] at hnames
    exact hnames
  · have hm := htakes.methods_eq
    simp only [Draft.empty, hstart, List.append_nil, Nat.zero_add] at hm
    rw [hm, List.reverse_reverse]
  · refine ⟨_, rfl, ?_, ?_⟩
    · exact (sortedLabels_perm _).trans
        (by rw [hlabels]; exact (List.reverse_perm _).map _)
    · apply sortedLabels_pairwise
      · rw [hlabels, List.map_reverse]
        exact List.nodup_reverse.mpr hnames
      · rw [hlabels]
        intro e he
        obtain ⟨d, -, rfl⟩ := List.mem_map.mp (List.mem_reverse.mp he)
        exact Nat.lt_of_le_of_lt (startOf_le placed d.2) hsize

end ContractVM.Assembly
