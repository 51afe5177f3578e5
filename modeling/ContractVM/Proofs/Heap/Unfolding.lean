import ContractVM.Proofs.Heap.Sound
import Mathlib.Data.List.Nodup
import Mathlib.Data.List.Perm.Subperm

/-! # Values unfolded

    What a value looks like is what is seen when the structs behind it are unfolded, level by
    level.  Comparisons are measured by this:

    * **Equal** sides agree on every level, although pairs that were found equal before are
      not compared again.
    * **Different** sides disagree on some level.
    * **No answer** is given only where both sides descend as far as the comparison went. -/

namespace ContractVM

/-! ## Section 1: Rows of entries -/

namespace Entries

variable {same : Value → Value → Bool} {key value : Value} {es fs : Entries}

/-- No key of a row stands for two values. -/
theorem Keyed.eq_of_key (hes : es.Keyed) {e f : Value × Value} (he : e ∈ es) (hf : f ∈ es)
    (hkey : e.1 = f.1) : e = f :=
  List.inj_on_of_nodup_map hes.distinct he hf hkey

/-- A row with as many entries as another one, and all their keys, has no other keys. -/
theorem Keyed.exists_of_length_eq (hes : es.Keyed) (hlength : es.length = fs.length)
    (hkeys : ∀ e ∈ es, ∃ f ∈ fs, f.1 = e.1) {f : Value × Value} (hf : f ∈ fs) :
    ∃ e ∈ es, e.1 = f.1 := by
  have hsubset : es.map Prod.fst ⊆ fs.map Prod.fst := by
    intro k hk
    obtain ⟨e, he, rfl⟩ := List.mem_map.mp hk
    obtain ⟨f, hf, hkey⟩ := hkeys e he
    rw [← hkey]
    exact List.mem_map_of_mem hf
  have hperm : (es.map Prod.fst).Perm (fs.map Prod.fst) := by
    apply (List.subperm_of_subset hes.distinct hsubset).perm_of_length_le
    rw [List.length_map, List.length_map]
    exact Nat.le_of_eq hlength.symm
  exact List.mem_map.mp (hperm.mem_iff.mpr (List.mem_map_of_mem hf))

theorem mem_of_get? (hsame : ∀ k, same k key = decide (k = key))
    (hget : get? same key es = some value) : (key, value) ∈ es := by
  unfold get? at hget
  obtain ⟨e, hfind, rfl⟩ := Option.map_eq_some_iff.mp hget
  have hkey := List.find?_some hfind
  rw [hsame] at hkey
  rw [← of_decide_eq_true hkey]
  exact List.mem_of_find?_eq_some hfind

theorem ne_of_get?_eq_none (hsame : ∀ k, same k key = decide (k = key))
    (hget : get? same key es = none) {e : Value × Value} (he : e ∈ es) : e.1 ≠ key := by
  unfold get? at hget
  have hmiss := List.find?_eq_none.mp (Option.map_eq_none_iff.mp hget) e he
  rw [hsame] at hmiss
  exact fun hkey => hmiss (decide_eq_true hkey)

/-- Do the rows have as many entries, and for each key values that agree? -/
def Agree (agree : Value → Value → Prop) (es fs : Entries) : Prop :=
  es.length = fs.length ∧ ∀ e ∈ es, ∃ f ∈ fs, f.1 = e.1 ∧ agree e.2 f.2

/-- Rows that agree one way agree the other way, for their keys can be told apart. -/
theorem Agree.symm {agree agree' : Value → Value → Prop} (hes : es.Keyed) (hfs : fs.Keyed)
    (hswap : ∀ v w, agree v w → agree' w v) (hagree : Agree agree es fs) : Agree agree' fs es := by
  obtain ⟨hlength, hvalues⟩ := hagree
  refine ⟨hlength.symm, ?_⟩
  intro f hf
  have hkeys : ∀ e ∈ es, ∃ f ∈ fs, f.1 = e.1 := by
    intro e he
    obtain ⟨f, hf, hkey, -⟩ := hvalues e he
    exact ⟨f, hf, hkey⟩
  obtain ⟨e, he, hkey⟩ := hes.exists_of_length_eq hlength hkeys hf
  obtain ⟨f', hf', hkey', hvalue⟩ := hvalues e he
  -- the partner of the partner is the entry itself
  have heq : f' = f := hfs.eq_of_key hf' hf (hkey'.trans hkey)
  subst heq
  exact ⟨e, he, hkey, hswap _ _ hvalue⟩

/-- Rows that agree on every level agree on all levels at once, since the partner of an entry is
    the same on each of them. -/
theorem Agree.of_forall {agree : Nat → Value → Value → Prop} (hfs : fs.Keyed)
    (hrows : ∀ n, Agree (agree n) es fs) : Agree (fun v w => ∀ n, agree n v w) es fs := by
  refine ⟨(hrows 0).1, ?_⟩
  intro e he
  obtain ⟨f, hf, hkey, -⟩ := (hrows 0).2 e he
  refine ⟨f, hf, hkey, fun n => ?_⟩
  obtain ⟨f', hf', hkey', hvalue⟩ := (hrows n).2 e he
  rw [← hfs.eq_of_key hf' hf (hkey'.trans hkey.symm)]
  exact hvalue

/-- Do the rows have the same keys, in whatever order? -/
def SameKeys (es fs : Entries) : Prop :=
  ∀ k, k ∈ es.map Prod.fst ↔ k ∈ fs.map Prod.fst

theorem Agree.sameKeys {agree : Value → Value → Prop} (hes : es.Keyed)
    (hagree : Agree agree es fs) : SameKeys es fs := by
  obtain ⟨hlength, hvalues⟩ := hagree
  have hright : ∀ e ∈ es, ∃ f ∈ fs, f.1 = e.1 := by
    intro e he
    obtain ⟨f, hf, hkey, -⟩ := hvalues e he
    exact ⟨f, hf, hkey⟩
  intro k
  constructor
  · intro hk
    obtain ⟨e, he, rfl⟩ := List.mem_map.mp hk
    exact List.mem_map.mpr (hright e he)
  · intro hk
    obtain ⟨f, hf, rfl⟩ := List.mem_map.mp hk
    exact List.mem_map.mpr (hes.exists_of_length_eq hlength hright hf)

/-- Rows with the same keys have as many entries, as no key stands twice. -/
theorem SameKeys.length_eq (hsame : SameKeys es fs) (hes : es.Keyed) (hfs : fs.Keyed) :
    es.length = fs.length := by
  have hperm : (es.map Prod.fst).Perm (fs.map Prod.fst) :=
    (List.perm_ext_iff_of_nodup hes.distinct hfs.distinct).mpr hsame
  simpa using hperm.length_eq

end Entries

namespace Heap

variable {Ω : Type} [HostData Ω] {h : Heap Ω}

/-! ## Section 2: Agreement -/

/-- Do the values look the same, if `rows` says so of the entries of structs? -/
inductive Matches (h : Heap Ω) (rows : Entries → Entries → Prop) : Value → Value → Prop where
  | same (v : Value) : Matches h rows v v
  | objects {a b : ObjectRef} (hsame : h.sameObject a b = true) :
    Matches h rows (.object a) (.object b)
  | structs {a b : StructRef} (hrows : rows (h.entries a) (h.entries b)) :
    Matches h rows (.struct a) (.struct b)

/-- Do the values look the same down to so many levels of structs? -/
def AgreeTo (h : Heap Ω) : Nat → Value → Value → Prop
  | 0 => h.Matches fun _ _ => True
  | below + 1 => h.Matches (Entries.Agree (h.AgreeTo below))

theorem agreeTo_refl (levels : Nat) (v : Value) : h.AgreeTo levels v v := by
  cases levels with
  | zero => exact .same v
  | succ below => exact .same v

theorem agreeTo_objects {a b : ObjectRef} (hsame : h.sameObject a b = true) (levels : Nat) :
    h.AgreeTo levels (.object a) (.object b) := by
  cases levels with
  | zero => exact .objects hsame
  | succ below => exact .objects hsame

theorem agreeTo_structs {below : Nat} {a b : StructRef} :
    h.AgreeTo (below + 1) (.struct a) (.struct b) ↔
      Entries.Agree (h.AgreeTo below) (h.entries a) (h.entries b) := by
  constructor
  · intro hagree
    cases hagree with
    | same => exact ⟨rfl, fun e he => ⟨e, he, rfl, agreeTo_refl below e.2⟩⟩
    | structs hrows => exact hrows
  · exact .structs

theorem sameObject_refl (r : ObjectRef) : h.sameObject r r = true := by
  unfold sameObject
  rw [beq_self_eq_true, Bool.true_or]

/-- Objects are the same the other way round, if the host's data are. -/
theorem sameObject_comm (hhost : ∀ x y : Ω, HostData.same x y = HostData.same y x)
    (a b : ObjectRef) : h.sameObject a b = h.sameObject b a := by
  have hobjects : ∀ x y : HostObject Ω, x.same y = y.same x := by
    intro x y
    cases x with
    | context c =>
      cases y with
      | context d => exact Bool.beq_comm
      | datum y => rfl
    | datum x =>
      cases y with
      | context d => rfl
      | datum y => exact hhost x y
  unfold sameObject
  rw [Bool.beq_comm]
  congr 1
  cases h.object? a with
  | none =>
    cases h.object? b with
    | none => rfl
    | some y => rfl
  | some x =>
    cases h.object? b with
    | none => rfl
    | some y => exact hobjects x y

theorem AgreeTo.symm (hhost : ∀ x y : Ω, HostData.same x y = HostData.same y x)
    (hkeyed : ∀ r, (h.entries r).Keyed) {levels : Nat} {v w : Value}
    (hagree : h.AgreeTo levels v w) : h.AgreeTo levels w v := by
  induction levels generalizing v w with
  | zero =>
    cases hagree with
    | same => exact agreeTo_refl 0 v
    | objects hsame =>
      rw [sameObject_comm hhost] at hsame
      exact agreeTo_objects hsame 0
    | structs _ => exact .structs trivial
  | succ below ih =>
    cases hagree with
    | same => exact agreeTo_refl (below + 1) v
    | objects hsame =>
      rw [sameObject_comm hhost] at hsame
      exact agreeTo_objects hsame (below + 1)
    | @structs a b hrows => exact .structs (hrows.symm (hkeyed a) (hkeyed b) fun _ _ => ih)

/-! ## Section 3: Comparisons of rows -/

/-- Do the proven pairs look the same on every level? -/
def Agreed (h : Heap Ω) (proven : ProvenPairs) : Prop :=
  ∀ p ∈ proven, ∀ levels, h.AgreeTo levels (.struct p.1) (.struct p.2)

section Rows

variable {same : Value → Value → Bool} {compareValues : ProvenPairs → Value → Value → Comparison}

/-- A row is equal if the value of each key was found equal. -/
theorem compare_equal (good : ProvenPairs → Prop) (agree : Value → Value → Prop)
    (hvalues : ∀ proven proven' v w, good proven → compareValues proven v w = .equal proven' →
      good proven' ∧ agree v w)
    {other es : Entries} {proven proven' : ProvenPairs} (hproven : good proven)
    (hequal : Entries.compare same compareValues other es proven = .equal proven') :
    good proven' ∧ ∀ e ∈ es, ∃ w, Entries.get? same e.1 other = some w ∧ agree e.2 w := by
  induction es generalizing proven with
  | nil =>
    cases hequal
    exact ⟨hproven, fun e he => absurd he List.not_mem_nil⟩
  | cons e rest ih =>
    obtain ⟨k, v⟩ := e
    simp only [Entries.compare] at hequal
    split at hequal
    · cases hequal
    · next w hget =>
      split at hequal
      · next proven₁ hfirst =>
        obtain ⟨hproven₁, hagree⟩ := hvalues _ _ _ _ hproven hfirst
        obtain ⟨hlast, hrest⟩ := ih hproven₁ hequal
        refine ⟨hlast, ?_⟩
        intro e he
        rcases List.mem_cons.mp he with rfl | he
        · exact ⟨w, hget, hagree⟩
        · exact hrest e he
      · cases hequal
      · cases hequal

/-- Otherwise it is decided by a key that is missing, or by the values of a key. -/
theorem compare_ne_equal (good : ProvenPairs → Prop)
    (hvalues : ∀ proven proven' v w, good proven → compareValues proven v w = .equal proven' →
      good proven')
    {other es : Entries} {proven : ProvenPairs} (hproven : good proven) {found : Comparison}
    (hfound : Entries.compare same compareValues other es proven = found)
    (hne : ∀ proven', found ≠ .equal proven') :
    ∃ e ∈ es, (Entries.get? same e.1 other = none ∧ found = .different) ∨
      ∃ w proven', Entries.get? same e.1 other = some w ∧ good proven' ∧
        compareValues proven' e.2 w = found := by
  induction es generalizing proven with
  | nil => exact absurd hfound.symm (hne proven)
  | cons e rest ih =>
    obtain ⟨k, v⟩ := e
    simp only [Entries.compare] at hfound
    split at hfound
    · next hget => exact ⟨(k, v), List.mem_cons_self, .inl ⟨hget, hfound.symm⟩⟩
    · next w hget =>
      split at hfound
      · next proven₁ hfirst =>
        obtain ⟨e, he, hcause⟩ := ih (hvalues _ _ _ _ hproven hfirst) hfound
        exact ⟨e, List.mem_cons_of_mem _ he, hcause⟩
      · next hfirst =>
        exact ⟨(k, v), List.mem_cons_self, .inr ⟨w, proven, hget, hproven, hfirst.trans hfound⟩⟩
      · next hfirst =>
        exact ⟨(k, v), List.mem_cons_self, .inr ⟨w, proven, hget, hproven, hfirst.trans hfound⟩⟩

end Rows

/-! ## Section 4: Comparisons of values -/

/-- What a comparison does, and what it finds. -/
inductive Compares (h : Heap Ω) (levels : Nat) (proven : ProvenPairs) :
    Value → Value → Comparison → Prop where
  | same (v : Value) : Compares h levels proven v v (.equal proven)
  | objects {a b : ObjectRef} (hsame : h.sameObject a b = true) :
    Compares h levels proven (.object a) (.object b) (.equal proven)
  | unlike {v w : Value} (hunlike : ∀ rows, ¬h.Matches rows v w) :
    Compares h levels proven v w .different
  /-- The pair was found equal before. -/
  | known {a b : StructRef} (hmem : (a, b) ∈ proven) :
    Compares h levels proven (.struct a) (.struct b) (.equal proven)
  | bottom {a b : StructRef} (hlevels : levels = 0) :
    Compares h levels proven (.struct a) (.struct b) .tooDeep
  | lengths {a b : StructRef} (hlength : (h.entries a).length ≠ (h.entries b).length) :
    Compares h levels proven (.struct a) (.struct b) .different
  /-- The rows are equal, which is kept in mind. -/
  | equalRows {below : Nat} {a b : StructRef} {proven' : ProvenPairs}
    (hlevels : levels = below + 1) (hlength : (h.entries a).length = (h.entries b).length)
    (hrows : Entries.compare h.sameKey (h.compareWithin h.sameKey below) (h.entries b)
      (h.entries a) proven = .equal proven') :
    Compares h levels proven (.struct a) (.struct b) (.equal ((a, b) :: proven'))
  | otherRows {below : Nat} {a b : StructRef} {found : Comparison} (hlevels : levels = below + 1)
    (hrows : Entries.compare h.sameKey (h.compareWithin h.sameKey below) (h.entries b)
      (h.entries a) proven = found) (hne : ∀ proven', found ≠ .equal proven') :
    Compares h levels proven (.struct a) (.struct b) found

theorem compares_compareWithin (levels : Nat) (proven : ProvenPairs) (v w : Value) :
    h.Compares levels proven v w (h.compareWithin h.sameKey levels proven v w) := by
  unfold compareWithin
  split
  · next a b =>
    split
    · next heq =>
      rw [heq]
      exact .same _
    · split
      · exact .bottom rfl
      · next below =>
        split
        · next hmem => exact .known hmem
        · split
          · next hlength => exact .lengths hlength
          · next hlength =>
            split
            · next hrows => exact .equalRows rfl (Decidable.not_not.mp hlength) hrows
            · next hrows => exact .otherRows rfl hrows fun _ => Comparison.noConfusion
            · next hrows => exact .otherRows rfl hrows fun _ => Comparison.noConfusion
  · next a b =>
    split
    · next hsame => exact .objects hsame
    · next hsame =>
      apply Compares.unlike
      intro rows hmatches
      cases hmatches with
      | same => exact hsame (sameObject_refl a)
      | objects hsame' => exact hsame hsame'
  · next hstructs hobjects =>
    split
    · next heq =>
      rw [heq]
      exact .same _
    · next hne =>
      apply Compares.unlike
      intro rows hmatches
      cases hmatches with
      | same => exact hne rfl
      | @objects a b _ => exact hobjects a b rfl rfl
      | @structs a b _ => exact hstructs a b rfl rfl

section Values

variable (hkeyed : ∀ r, (h.entries r).Keyed)

include hkeyed

theorem sameKey_of_entry {r : StructRef} {e : Value × Value} (he : e ∈ h.entries r) (k : Value) :
    h.sameKey k e.1 = decide (k = e.1) :=
  h.sameKey_of_scalar k ((hkeyed r).scalar e he)

/-- Sides that are found equal agree on every level. -/
theorem compareWithin_equal (levels : Nat) {proven proven' : ProvenPairs} {v w : Value}
    (hproven : h.Agreed proven)
    (hequal : h.compareWithin h.sameKey levels proven v w = .equal proven') :
    h.Agreed proven' ∧ ∀ n, h.AgreeTo n v w := by
  induction levels generalizing proven proven' v w with
  | zero =>
    have hcompares := h.compares_compareWithin 0 proven v w
    rw [hequal] at hcompares
    cases hcompares with
    | same => exact ⟨hproven, fun n => agreeTo_refl n v⟩
    | objects hsame => exact ⟨hproven, agreeTo_objects hsame⟩
    | known hmem => exact ⟨hproven, hproven _ hmem⟩
    | equalRows hlevels => cases hlevels
    | otherRows hlevels => cases hlevels
  | succ below ih =>
    have hcompares := h.compares_compareWithin (below + 1) proven v w
    rw [hequal] at hcompares
    cases hcompares with
    | same => exact ⟨hproven, fun n => agreeTo_refl n v⟩
    | objects hsame => exact ⟨hproven, agreeTo_objects hsame⟩
    | known hmem => exact ⟨hproven, hproven _ hmem⟩
    | otherRows _ _ hne => exact absurd rfl (hne _)
    | @equalRows _ a b proven₁ hlevels hlength hrows =>
      cases hlevels
      obtain ⟨hproven₁, hvalues⟩ := compare_equal h.Agreed
        (fun v w => ∀ n, h.AgreeTo n v w) (fun _ _ _ _ => ih) hproven hrows
      have hpair : ∀ n, h.AgreeTo n (.struct a) (.struct b) := by
        intro n
        cases n with
        | zero => exact .structs trivial
        | succ n =>
          refine agreeTo_structs.mpr ⟨hlength, ?_⟩
          intro e he
          obtain ⟨w, hget, hagree⟩ := hvalues e he
          exact ⟨(e.1, w), Entries.mem_of_get? (sameKey_of_entry hkeyed he) hget, rfl, hagree n⟩
      refine ⟨?_, hpair⟩
      intro p hp
      rcases List.mem_cons.mp hp with rfl | hp
      · exact hpair
      · exact hproven₁ p hp

/-- Sides that are found different disagree on some level. -/
theorem compareWithin_different (levels : Nat) {proven : ProvenPairs} {v w : Value}
    (hproven : h.Agreed proven)
    (hdifferent : h.compareWithin h.sameKey levels proven v w = .different) :
    ∃ n, ¬h.AgreeTo n v w := by
  induction levels generalizing proven v w with
  | zero =>
    have hcompares := h.compares_compareWithin 0 proven v w
    rw [hdifferent] at hcompares
    cases hcompares with
    | unlike hunlike => exact ⟨0, hunlike _⟩
    | lengths hlength => exact ⟨1, fun hagree => hlength (agreeTo_structs.mp hagree).1⟩
    | otherRows hlevels => cases hlevels
  | succ below ih =>
    have hcompares := h.compares_compareWithin (below + 1) proven v w
    rw [hdifferent] at hcompares
    cases hcompares with
    | unlike hunlike => exact ⟨0, hunlike _⟩
    | lengths hlength => exact ⟨1, fun hagree => hlength (agreeTo_structs.mp hagree).1⟩
    | @otherRows _ a b _ hlevels hrows hne =>
      cases hlevels
      obtain ⟨e, he, hcause⟩ := compare_ne_equal h.Agreed
        (fun _ _ _ _ hproven hequal => (compareWithin_equal hkeyed below hproven hequal).1)
        hproven hrows hne
      have hsame := sameKey_of_entry hkeyed he
      rcases hcause with ⟨hget, -⟩ | ⟨w, proven', hget, hproven', hvalues⟩
      · -- the other side does not have the key
        refine ⟨1, fun hagree => ?_⟩
        obtain ⟨f, hf, hkey, -⟩ := (agreeTo_structs.mp hagree).2 e he
        exact Entries.ne_of_get?_eq_none hsame hget hf hkey
      · obtain ⟨n, hn⟩ := ih hproven' hvalues
        refine ⟨n + 1, fun hagree => ?_⟩
        obtain ⟨f, hf, hkey, hagree⟩ := (agreeTo_structs.mp hagree).2 e he
        have hpartner : f = (e.1, w) :=
          (hkeyed b).eq_of_key hf (Entries.mem_of_get? hsame hget) hkey
        rw [hpartner] at hagree
        exact hn hagree

/-- Without an answer, both sides descend through all levels. -/
theorem compareWithin_tooDeep (levels : Nat) {proven : ProvenPairs} {v w : Value}
    (hdeep : h.compareWithin h.sameKey levels proven v w = .tooDeep) :
    h.NestsBeyond levels v ∧ h.NestsBeyond levels w := by
  induction levels generalizing proven v w with
  | zero =>
    have hcompares := h.compares_compareWithin 0 proven v w
    rw [hdeep] at hcompares
    cases hcompares with
    | @bottom a b _ => exact ⟨⟨a, rfl, trivial⟩, ⟨b, rfl, trivial⟩⟩
    | otherRows hlevels => cases hlevels
  | succ below ih =>
    have hcompares := h.compares_compareWithin (below + 1) proven v w
    rw [hdeep] at hcompares
    cases hcompares with
    | bottom hlevels => cases hlevels
    | @otherRows _ a b _ hlevels hrows hne =>
      cases hlevels
      obtain ⟨e, he, hcause⟩ := compare_ne_equal (fun _ => True)
        (fun _ _ _ _ _ _ => trivial) trivial hrows hne
      rcases hcause with ⟨-, heq⟩ | ⟨w, proven', hget, -, hvalues⟩
      · cases heq
      · obtain ⟨⟨s, hs, hdown⟩, ⟨u, hu, hdown'⟩⟩ := ih hvalues
        have hmem := Entries.mem_of_get? (sameKey_of_entry hkeyed he) hget
        exact ⟨⟨a, rfl, s, ⟨e, he, hs⟩, hdown⟩, ⟨b, rfl, u, ⟨(e.1, w), hmem, hu⟩, hdown'⟩⟩

end Values

end Heap

end ContractVM
