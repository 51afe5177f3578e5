import ContractVM.Proofs.Heap.Mirrors
import ContractVM.Proofs.Heap.FirstPaths
import ContractVM.Proofs.Heap.Walks

/-! # Structs that hold themselves

    Inserting an entry without any check may bring a struct into itself.  Walks through such
    structs end, too:

    * **Copies**: a struct is entered in the table behind all that it holds, so a struct from
      which a path goes on forever never is.  Nothing can be copied that leads to a cycle.
    * **Comparisons** may find that structs are equal although they hold themselves.  Then they
      are bisimilar, which means that they look the same along every path of keys.

    The keys of all structs are scalars that can be told apart, whatever hosts do. -/

namespace ContractVM

open Relation

namespace Heap

variable {Ω : Type} {h : Heap Ω}

/-! ## Section 1: Paths that go on forever -/

/-- Does every path through structs that begins at the value come to an end? -/
def PathsEnd (h : Heap Ω) (v : Value) : Prop :=
  ∀ r, v = .struct r → Acc (Function.swap h.Links) r

theorem pathsEnd_struct {r : StructRef} :
    h.PathsEnd (.struct r) ↔ ∀ e ∈ h.entries r, h.PathsEnd e.2 := by
  constructor
  · intro hends e he s hs
    exact (hends r rfl).inv ⟨e, he, hs⟩
  · intro hvalues s hs
    cases hs
    exact Acc.intro r fun s ⟨e, he, hs⟩ => hvalues e he s hs

/-- A path that has come to a cycle can be followed forever. -/
theorem not_pathsEnd_of_cycle {r s : StructRef} (hpath : ReflTransGen h.Links r s)
    (hcycle : TransGen h.Links s s) : ¬h.PathsEnd (.struct r) := by
  intro hends
  have hs : Acc (Function.swap h.Links) s := by
    clear hcycle
    induction hpath with
    | refl => exact hends r rfl
    | tail _ hlink ih => exact ih.inv hlink
  exact not_cyclic_of_acc hs hcycle

/-! ## Section 2: Copies -/

/-- Where copying stands: every path ends that begins at a struct which was copied. -/
structure Finished (base : Heap Ω) (copies : Copies) (h : Heap Ω) : Prop where
  grown : base.Extends h
  table : ∀ p ∈ copies, base.PathsEnd (.struct p.1)

theorem finished_nil (h : Heap Ω) : h.Finished [] h where
  grown := .refl h
  table _ hp := absurd hp List.not_mem_nil

/-- Every path ends that begins in a row which was copied. -/
theorem finished_copyEntries {base : Heap Ω}
    {copyValue : Value → Copies → Heap Ω → Option (Copied Ω Value)}
    (hcopy : ∀ v copies (h : Heap Ω) c, copyValue v copies h = some c → base.Finished copies h →
      base.Finished c.copies c.heap ∧ base.PathsEnd v)
    (es : Entries) {copies : Copies} {h : Heap Ω} (hstart : base.Finished copies h)
    {c : Copied Ω Entries} (hc : copyEntries copyValue es copies h = some c) :
    base.Finished c.copies c.heap ∧ ∀ e ∈ es, base.PathsEnd e.2 := by
  induction es generalizing copies h c with
  | nil =>
    cases hc
    exact ⟨hstart, fun e he => absurd he List.not_mem_nil⟩
  | cons entry rest ih =>
    obtain ⟨k, v⟩ := entry
    simp only [copyEntries, bind, Option.bind_eq_some_iff] at hc
    obtain ⟨c₁, hfirst, c₂, hrest, heq⟩ := hc
    cases heq
    obtain ⟨h₁, hv⟩ := hcopy v copies h c₁ hfirst hstart
    obtain ⟨h₂, hvalues⟩ := ih h₁ hrest
    refine ⟨h₂, ?_⟩
    intro e he
    rcases List.mem_cons.mp he with rfl | he
    · exact hv
    · exact hvalues e he

variable [HostData Ω]

theorem finished_copyWithin_leaf {base : Heap Ω} (levels : Nat) {v : Value}
    (hv : ∀ r, v ≠ .struct r) {copies : Copies} (hstart : base.Finished copies h)
    {c : Copied Ω Value} (hc : copyWithin levels v copies h = some c) :
    base.Finished c.copies c.heap ∧ base.PathsEnd v := by
  obtain ⟨hcopies, -, -⟩ := copyWithin_leaf levels hv hc
  rw [hcopies]
  exact ⟨⟨hstart.grown.trans (extends_copyWithin levels v hc), hstart.table⟩,
    fun r hr => absurd hr (hv r)⟩

/-- Every path ends that begins at a value which was copied. -/
theorem finished_copyWithin {base : Heap Ω} (levels : Nat) (v : Value) {copies : Copies}
    {h : Heap Ω} (hstart : base.Finished copies h) {c : Copied Ω Value}
    (hc : copyWithin levels v copies h = some c) :
    base.Finished c.copies c.heap ∧ base.PathsEnd v := by
  induction levels generalizing v copies h c with
  | zero =>
    by_cases hv : ∃ r, v = .struct r
    · obtain ⟨r, rfl⟩ := hv
      cases hc
    · exact finished_copyWithin_leaf 0 (fun r hr => hv ⟨r, hr⟩) hstart hc
  | succ below ih =>
    by_cases hv : ∃ r, v = .struct r
    · obtain ⟨r, rfl⟩ := hv
      cases hlookup : copies.lookup r with
      | some done =>
        -- it was copied before
        have hends := hstart.table (r, done) (mem_of_lookup hlookup)
        simp only [copyWithin, hlookup, Option.some.injEq] at hc
        subst hc
        exact ⟨hstart, hends⟩
      | none =>
        have hgrown := hstart.grown.trans (extends_copyWithin (below + 1) (.struct r) hc)
        rw [copyWithin_of_new hlookup] at hc
        obtain ⟨cs, hrow, heq⟩ := Option.map_eq_some_iff.mp hc
        subst heq
        obtain ⟨hcs, hvalues⟩ := finished_copyEntries
          (fun v _ _ _ hcopy hstart => ih v hstart hcopy) (h.entries r) hstart hrow
        have hends : base.PathsEnd (.struct r) := by
          apply pathsEnd_struct.mpr
          by_cases hr : r.index < base.structs.size
          · rw [← hstart.grown.entries_eq hr]
            exact hvalues
          · intro e he
            rw [entries_of_size_le (by omega)] at he
            cases he
        refine ⟨⟨hgrown, ?_⟩, hends⟩
        intro p hp
        rcases List.mem_cons.mp hp with rfl | hp
        · exact hends
        · exact hcs.table p hp
    · exact finished_copyWithin_leaf (below + 1) (fun r hr => hv ⟨r, hr⟩) hstart hc

/-- A value that leads to a cycle has no copy. -/
theorem deepCopy_of_cycle {r s : StructRef} (hpath : ReflTransGen h.Links r s)
    (hcycle : TransGen h.Links s s) (instruction : String) :
    h.deepCopy (.struct r) instruction = .error (.outOfRange instruction .nesting) := by
  refine deepCopy_eq_error_iff.mpr ⟨rfl, ?_⟩
  cases hcopy : copyWithin maxNesting (.struct r) [] h with
  | none => rfl
  | some c =>
    obtain ⟨-, hends⟩ := finished_copyWithin maxNesting (.struct r) (finished_nil h) hcopy
    exact absurd hends (not_pathsEnd_of_cycle hpath hcycle)

/-! ## Section 3: Unchecked insertion -/

/-- What a host may do to a heap: any checked operation, and the insertion of an entry without any
    check of the nesting. -/
inductive HostChange : Heap Ω → Heap Ω → Prop where
  | checked {h h' : Heap Ω} (hchange : h.Change h') : HostChange h h'
  | insert (h : Heap Ω) (r : StructRef) {key : Value} (hkey : key.isScalar = true) (v : Value) :
      HostChange h (h.insertEntry r key v)

theorem keyed_put (hkeyed : ∀ r, (h.entries r).Keyed) (container key value : Value)
    (instruction : String) (r : StructRef) :
    ((h.put container key value instruction).heap.entries r).Keyed := by
  have hopened : ∀ {s h'}, h.Opens container s h' → ∀ r, (h'.entries r).Keyed := by
    intro s h' hopens r
    rw [hopens.entries_eq]
    exact hkeyed r
  have hputs := h.puts_put container key value instruction
  generalize h.put container key value instruction = put at hputs ⊢
  cases hputs with
  | badKey => exact hkeyed r
  | badContainer => exact hkeyed r
  | cyclic _ hopens => exact hopened hopens r
  | tooDeep _ hopens => exact hopened hopens r
  | stored hkey hopens => exact keyed_insertEntry (hopened hopens) hkey _ value r

/-- Hosts keep the keys of every struct apart. -/
theorem HostChange.keyed {h' : Heap Ω} (hchange : HostChange h h')
    (hkeyed : ∀ r, (h.entries r).Keyed) (r : StructRef) : (h'.entries r).Keyed := by
  cases hchange with
  | insert s hkey v => exact keyed_insertEntry hkeyed hkey s v r
  | checked hchange =>
    cases hchange with
    | none => exact hkeyed r
    | newStruct =>
      rw [entries_newStruct]
      exact hkeyed r
    | newObject => exact hkeyed r
    | setObject => exact hkeyed r
    | put container key value instruction =>
      exact keyed_put hkeyed container key value instruction r
    | deepCopy hcopy => exact (copiedOnto_deepCopy hcopy).keyed hkeyed r

theorem keyed_of_hostChanges {h' : Heap Ω} (hkeyed : ∀ r, (h.entries r).Keyed)
    (hchanges : ReflTransGen HostChange h h') : ∀ r, (h'.entries r).Keyed := by
  induction hchanges with
  | refl => exact hkeyed
  | tail _ hchange ih => exact hchange.keyed ih

/-! ## Section 4: Unfoldings -/

/-- Values that a relation brings together look alike, and it brings together what they hold. -/
def Bisimulation (h : Heap Ω) (R : Value → Value → Prop) : Prop :=
  ∀ v w, R v w → h.Matches (Entries.Agree R) v w

/-- Are the values brought together by some bisimulation? -/
def Bisimilar (h : Heap Ω) (v w : Value) : Prop :=
  ∃ R, h.Bisimulation R ∧ R v w

omit [HostData Ω] in
/-- The value that a path of keys leads to. -/
def valueAt (h : Heap Ω) : List Value → Value → Option Value
  | [], v => some v
  | key :: path, .struct r => ((h.entries r).lookup key).bind (h.valueAt path)
  | _ :: _, _ => none

/-- Do the values look the same along every path of keys?  Paths may be of any length, so that it
    does not matter whether they come to an end somewhere. -/
def SameUnfolding (h : Heap Ω) (v w : Value) : Prop :=
  ∀ path, Option.Rel (h.Matches Entries.SameKeys) (h.valueAt path v) (h.valueAt path w)

section Unfoldings

variable (hkeyed : ∀ r, (h.entries r).Keyed)

include hkeyed

omit [HostData Ω] hkeyed in
/-- A path ends where its key is missing. -/
theorem valueAt_of_not_mem {r : StructRef} {key : Value}
    (hkey : key ∉ (h.entries r).map Prod.fst) (path : List Value) :
    h.valueAt (key :: path) (.struct r) = none := by
  have hlookup : (h.entries r).lookup key = none := by
    apply List.lookup_eq_none_iff.mpr
    intro e he
    have hne : key ≠ e.1 := fun heq => hkey (List.mem_map.mpr ⟨e, he, heq.symm⟩)
    simpa using hne
  show ((h.entries r).lookup key).bind (h.valueAt path) = none
  rw [hlookup, Option.bind_none]

omit [HostData Ω] in
/-- It goes on through an entry with its key. -/
theorem valueAt_of_mem {r : StructRef} {e : Value × Value} (he : e ∈ h.entries r)
    (path : List Value) : h.valueAt (e.1 :: path) (.struct r) = h.valueAt path e.2 := by
  show ((h.entries r).lookup e.1).bind (h.valueAt path) = _
  rw [lookup_of_mem (hkeyed r).distinct he, Option.bind_some]

/-- Agreement on every level brings values together. -/
theorem bisimulation_agreeTo : h.Bisimulation fun v w => ∀ n, h.AgreeTo n v w := by
  intro v w hagree
  cases hagree 0 with
  | same => exact .same v
  | objects hsame => exact .objects hsame
  | @structs a b _ =>
    have hrows : ∀ n, Entries.Agree (h.AgreeTo n) (h.entries a) (h.entries b) :=
      fun n => agreeTo_structs.mp (hagree (n + 1))
    exact .structs (.of_forall (hkeyed b) hrows)

/-- Values that are brought together look the same along every path. -/
theorem Bisimilar.sameUnfolding {v w : Value} (hbisimilar : h.Bisimilar v w) :
    h.SameUnfolding v w := by
  obtain ⟨R, hR, hvw⟩ := hbisimilar
  intro path
  induction path generalizing v w with
  | nil =>
    refine .some ?_
    cases hR v w hvw with
    | same => exact .same v
    | objects hsame => exact .objects hsame
    | @structs a b hrows => exact .structs (hrows.sameKeys (hkeyed a))
  | cons key path ih =>
    cases hR v w hvw with
    | same =>
      cases h.valueAt (key :: path) v with
      | none => exact .none
      | some u => exact .some (.same u)
    | objects => exact .none
    | @structs a b hrows =>
      by_cases hkey : key ∈ (h.entries a).map Prod.fst
      · obtain ⟨e, he, rfl⟩ := List.mem_map.mp hkey
        obtain ⟨f, hf, hfe, hvalue⟩ := hrows.2 e he
        rw [valueAt_of_mem hkeyed he, ← hfe, valueAt_of_mem hkeyed hf]
        exact ih hvalue
      · -- then the other side does not have the key, either
        have hkey' : key ∉ (h.entries b).map Prod.fst :=
          fun hmem => hkey ((hrows.sameKeys (hkeyed a) key).mpr hmem)
        rw [valueAt_of_not_mem hkey, valueAt_of_not_mem hkey']
        exact .none

/-- Values that look the same along every path agree on every level. -/
theorem SameUnfolding.agreeTo {v w : Value} (hsame : h.SameUnfolding v w) (n : Nat) :
    h.AgreeTo n v w := by
  induction n generalizing v w with
  | zero =>
    have hroot : Option.Rel (h.Matches Entries.SameKeys) (some v) (some w) := hsame []
    cases hroot with
    | some hmatches =>
      cases hmatches with
      | same => exact .same v
      | objects hobjects => exact .objects hobjects
      | structs => exact .structs trivial
  | succ n ih =>
    have hroot : Option.Rel (h.Matches Entries.SameKeys) (some v) (some w) := hsame []
    cases hroot with
    | some hmatches =>
      cases hmatches with
      | same => exact .same v
      | objects hobjects => exact .objects hobjects
      | @structs a b hkeys =>
        refine .structs ⟨hkeys.length_eq (hkeyed a) (hkeyed b), ?_⟩
        intro e he
        obtain ⟨f, hf, hfe⟩ := List.mem_map.mp ((hkeys e.1).mp (List.mem_map_of_mem he))
        refine ⟨f, hf, hfe, ih ?_⟩
        -- the paths from the entries are those that begin with their key
        intro path
        have hpath := hsame (e.1 :: path)
        rw [valueAt_of_mem hkeyed he, ← hfe, valueAt_of_mem hkeyed hf] at hpath
        exact hpath

theorem bisimilar_iff_agreeTo {v w : Value} : h.Bisimilar v w ↔ ∀ n, h.AgreeTo n v w := by
  constructor
  · intro hbisimilar
    exact (hbisimilar.sameUnfolding hkeyed).agreeTo hkeyed
  · intro hagree
    exact ⟨_, bisimulation_agreeTo hkeyed, hagree⟩

/-- So values are bisimilar just if they have the same unfolding. -/
theorem bisimilar_iff_sameUnfolding {v w : Value} : h.Bisimilar v w ↔ h.SameUnfolding v w := by
  constructor
  · exact Bisimilar.sameUnfolding hkeyed
  · intro hsame
    exact (bisimilar_iff_agreeTo hkeyed).mpr (hsame.agreeTo hkeyed)

end Unfoldings

/-- Three structs after insertions without any check: one holds itself, one holds the first one,
    and one holds itself under another key. -/
def loops : Heap Empty :=
  let h := empty.newStruct.2.newStruct.2.newStruct.2
  let h := h.insertEntry ⟨0⟩ (.number 0) (.struct ⟨0⟩)
  let h := h.insertEntry ⟨1⟩ (.number 0) (.struct ⟨0⟩)
  h.insertEntry ⟨2⟩ (.number 1) (.struct ⟨2⟩)

theorem hostChanges_loops : ReflTransGen HostChange empty loops := by
  have hstructs : ReflTransGen HostChange (empty (Ω := Empty))
      empty.newStruct.2.newStruct.2.newStruct.2 :=
    ((ReflTransGen.single (.checked (.newStruct _))).tail (.checked (.newStruct _))).tail
      (.checked (.newStruct _))
  exact ((hstructs.tail (.insert _ _ rfl _)).tail (.insert _ _ rfl _)).tail (.insert _ _ rfl _)

end Heap

/-- **Walks through structs end, and they find out what can be seen.**  Take a heap in which the
    keys of each struct are scalars that can be told apart.  Nothing that hosts do changes this, and
    neither does inserting entries without any check.  The structs may hold themselves.

    Every copy and every comparison ends: it has a tree of calls, which is finite by nature, and
    all such trees have the outcome that is answered.  If a path from a value leads to a cycle, then
    the answer to a request for a copy is the fault of nesting.  Values that are found equal are
    bisimilar, and values that are found different are not.  Here values are bisimilar just if
    they look the same along all paths of keys, where the order of entries does not matter, and
    neither does it which of the objects that the host takes for equal stands there. -/
theorem walks_through_cycles_end {Ω : Type} [HostData Ω] {h : Heap Ω}
    (hkeyed : ∀ r, (h.entries r).Keyed) (instruction : String) :
    (∀ h', ReflTransGen Heap.HostChange h h' → ∀ r, (h'.entries r).Keyed) ∧
    (∀ v, ∃ outcome, (∀ o, Heap.CopyEnds 1 v [] h o ↔ o = outcome) ∧
      h.deepCopy v instruction = Copied.answer instruction outcome) ∧
    (∀ v w, ∃ found, (∀ f, h.CompareEnds 1 [] v w f ↔ f = found) ∧
      h.equal v w instruction = found.answer instruction) ∧
    (∀ r s, ReflTransGen h.Links r s → TransGen h.Links s s →
      h.deepCopy (.struct r) instruction = .error (.outOfRange instruction .nesting)) ∧
    (∀ v w, h.equal v w instruction = .ok true → h.Bisimilar v w) ∧
    (∀ v w, h.equal v w instruction = .ok false → ¬h.Bisimilar v w) ∧
    (∀ v w, h.Bisimilar v w ↔ h.SameUnfolding v w) := by
  refine ⟨fun _ => Heap.keyed_of_hostChanges hkeyed, fun v => h.exists_copyEnds v instruction,
    fun v w => h.exists_compareEnds v w instruction,
    fun _ _ hpath hcycle => Heap.deepCopy_of_cycle hpath hcycle instruction, ?same, ?other,
    fun _ _ => Heap.bisimilar_iff_sameUnfolding hkeyed⟩
  case same =>
    intro v w hequal
    exact (Heap.bisimilar_iff_agreeTo hkeyed).mpr ((Heap.equal_eq_ok hkeyed hequal).mp rfl)
  case other =>
    intro v w hequal hbisimilar
    have hagree := (Heap.bisimilar_iff_agreeTo hkeyed).mp hbisimilar
    exact Bool.false_ne_true ((Heap.equal_eq_ok hkeyed hequal).mpr hagree)

/-- A struct that holds itself is equal to another one that holds it, and not to one that holds
    itself under another key.  None of them is copied. -/
theorem loops_are_compared_and_not_copied :
    ReflTransGen Heap.HostChange Heap.empty Heap.loops ∧
    Heap.loops.deepCopy (.struct ⟨1⟩) "COPY" = .error (.outOfRange "COPY" .nesting) ∧
    Heap.loops.equal (.struct ⟨0⟩) (.struct ⟨1⟩) "EQUAL" = .ok true ∧
    Heap.loops.SameUnfolding (.struct ⟨0⟩) (.struct ⟨1⟩) ∧
    Heap.loops.equal (.struct ⟨0⟩) (.struct ⟨2⟩) "EQUAL" = .ok false ∧
    ¬Heap.loops.SameUnfolding (.struct ⟨0⟩) (.struct ⟨2⟩) := by
  have hempty : ∀ r, ((Heap.empty (Ω := Empty)).entries r).Keyed :=
    (Heap.sound_of_size_eq_zero rfl).keyed
  have hkeyed : ∀ r, (Heap.loops.entries r).Keyed :=
    Heap.keyed_of_hostChanges hempty Heap.hostChanges_loops
  obtain ⟨-, -, -, hrefused, -⟩ := walks_through_cycles_end hkeyed "COPY"
  obtain ⟨-, -, -, -, hequal, hother, hunfolding⟩ := walks_through_cycles_end hkeyed "EQUAL"
  have hfirst : Heap.loops.Links ⟨0⟩ ⟨0⟩ := ⟨(.number 0, .struct ⟨0⟩), List.mem_cons_self, rfl⟩
  have hsecond : Heap.loops.Links ⟨1⟩ ⟨0⟩ := ⟨(.number 0, .struct ⟨0⟩), List.mem_cons_self, rfl⟩
  have hsame : Heap.loops.equal (.struct ⟨0⟩) (.struct ⟨1⟩) "EQUAL" = .ok true := by rfl
  have hdifferent : Heap.loops.equal (.struct ⟨0⟩) (.struct ⟨2⟩) "EQUAL" = .ok false := by rfl
  exact ⟨Heap.hostChanges_loops, hrefused _ _ (.single hsecond) (.single hfirst), hsame,
    (hunfolding _ _).mp (hequal _ _ hsame), hdifferent,
    fun hunfolds => hother _ _ hdifferent ((hunfolding _ _).mpr hunfolds)⟩

end ContractVM
