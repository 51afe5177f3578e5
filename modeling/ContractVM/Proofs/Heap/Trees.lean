import ContractVM.Proofs.Heap.Mirrors
import ContractVM.Proofs.Heap.Symmetry
import Mathlib.Order.WellFoundedSet

/-! # Values as trees

    A value of a sound heap denotes a finite tree.  A struct is an unordered map from keys to
    subtrees there, and an object is all that the host takes for the same object; neither the
    order in which entries were set nor the sharing of structs is left.

    * **Every value** denotes one tree: no struct holds itself, so that unfolding ends.
    * **Values agree** on every level of structs just if they denote the same tree.
    * **Equality** is equality of trees, as long as one of the sides is not nested beyond
      `maxNesting`. -/

namespace ContractVM

open Relation

/-! ## Section 1: Trees -/

/-- What can be seen of a value. -/
inductive Tree where
  /-- A scalar or a none, with its type and its content. -/
  | data (v : Value)
  /-- The objects that are the same as this one. -/
  | object (alike : Set ObjectRef)
  /-- A struct, by the subtree of each key that it has. -/
  | node (subtree? : Value → Option Tree)

namespace Heap

variable {Ω : Type} [HostData Ω] {h : Heap Ω}

/-- The objects that are the same as this one. -/
def alike (h : Heap Ω) (o : ObjectRef) : Set ObjectRef :=
  {p | h.sameObject o p = true}

/-- A value and the tree that it denotes. -/
inductive Denotes (h : Heap Ω) : Value → Tree → Prop where
  | data {v : Value} (hstruct : ∀ r, v ≠ .struct r) (hobject : ∀ o, v ≠ .object o) :
    Denotes h v (.data v)
  | object (o : ObjectRef) : Denotes h (.object o) (.object (h.alike o))
  /-- The value of each entry denotes the subtree of its key, and other keys have none. -/
  | struct {r : StructRef} {subtree : Value → Tree}
    (hentries : ∀ e ∈ h.entries r, Denotes h e.2 (subtree e.1)) :
    Denotes h (.struct r)
      (.node fun k => if k ∈ (h.entries r).map Prod.fst then some (subtree k) else none)

/-- The same keys have the same subtrees in two structs that denote the same tree. -/
theorem subtree_eq_of_node_eq {keys keys' : List Value} {subtree subtree' : Value → Tree}
    (hnode : Tree.node (fun k => if k ∈ keys then some (subtree k) else none) =
      Tree.node (fun k => if k ∈ keys' then some (subtree' k) else none)) (k : Value) :
    (k ∈ keys ↔ k ∈ keys') ∧ (k ∈ keys → subtree k = subtree' k) := by
  have hk := congrFun (Tree.node.inj hnode) k
  by_cases hkeys : k ∈ keys
  · by_cases hkeys' : k ∈ keys'
    · rw [if_pos hkeys, if_pos hkeys'] at hk
      exact ⟨iff_of_true hkeys hkeys', fun _ => Option.some.inj hk⟩
    · rw [if_pos hkeys, if_neg hkeys'] at hk
      cases hk
  · by_cases hkeys' : k ∈ keys'
    · rw [if_neg hkeys, if_pos hkeys'] at hk
      cases hk
    · exact ⟨iff_of_false hkeys hkeys', fun hmem => absurd hmem hkeys⟩

/-- The other way round: subtrees are all that trees of structs have. -/
theorem node_eq_of_subtree_eq {keys keys' : List Value} {subtree subtree' : Value → Tree}
    (hkeys : ∀ k, k ∈ keys ↔ k ∈ keys') (hsubtrees : ∀ k ∈ keys, subtree k = subtree' k) :
    Tree.node (fun k => if k ∈ keys then some (subtree k) else none) =
      Tree.node (fun k => if k ∈ keys' then some (subtree' k) else none) := by
  congr 1
  funext k
  by_cases hk : k ∈ keys
  · rw [if_pos hk, if_pos ((hkeys k).mp hk), hsubtrees k hk]
  · rw [if_neg hk, if_neg fun hk' => hk ((hkeys k).mpr hk')]

/-- A value denotes one tree at most. -/
theorem Denotes.unique {v : Value} {t t' : Tree} (ht : h.Denotes v t) (ht' : h.Denotes v t') :
    t = t' := by
  induction ht generalizing t' with
  | data hstruct hobject =>
    cases ht' with
    | data => rfl
    | object o => exact absurd rfl (hobject o)
    | struct => exact absurd rfl (hstruct _)
  | object o =>
    cases ht' with
    | data _ hobject => exact absurd rfl (hobject o)
    | object => rfl
  | @struct r subtree hentries ih =>
    cases ht' with
    | data hstruct => exact absurd rfl (hstruct r)
    | struct hentries' =>
      apply node_eq_of_subtree_eq fun _ => Iff.rfl
      intro k hk
      obtain ⟨e, he, rfl⟩ := List.mem_map.mp hk
      exact ih e he (hentries' e he)

/-! ## Section 2: Every value has a tree -/

section Down

variable (hdown : ∀ r s, h.Links r s → s.index < r.index)

include hdown

omit [HostData Ω] in
/-- No struct holds itself if all of them hold earlier ones only. -/
theorem acyclic_of_links_down (r : StructRef) : ¬TransGen h.Links r r := by
  intro hcycle
  have hlt : ∀ s, TransGen h.Links r s → s.index < r.index := by
    intro s hpath
    induction hpath with
    | single hlink => exact hdown _ _ hlink
    | tail _ hlink ih => exact Nat.lt_trans (hdown _ _ hlink) ih
  exact Nat.lt_irrefl _ (hlt r hcycle)

omit [HostData Ω] in
theorem le_index_of_descends {n : Nat} {r : StructRef} (hr : h.Descends n r) : n ≤ r.index := by
  induction n generalizing r with
  | zero => exact Nat.zero_le _
  | succ n ih =>
    obtain ⟨s, hlink, hs⟩ := hr
    exact Nat.lt_of_le_of_lt (ih hs) (hdown r s hlink)

end Down

omit [HostData Ω] in
/-- All chains of links of a sound heap end, since it has finitely many structs. -/
theorem Sound.acc (hs : h.Sound) (r : StructRef) : Acc (Function.swap h.Links) r := by
  have hdead : ∀ r, ¬r.index < h.structs.size → Acc (Function.swap h.Links) r := by
    intro r hr
    refine Acc.intro r fun s hlink => ?_
    obtain ⟨e, he, -⟩ := hlink
    rw [entries_of_size_le (Nat.not_lt.mp hr)] at he
    cases he
  have horder : IsStrictOrder StructRef (Function.swap (TransGen h.Links)) :=
    { irrefl := hs.acyclic
      trans := fun _ _ _ hab hbc => hbc.trans hab }
  have hfinite : {r : StructRef | r.index < h.structs.size}.Finite := by
    apply (Set.finite_lt_nat h.structs.size).preimage (f := StructRef.index)
    rintro ⟨a⟩ - ⟨b⟩ - rfl
    rfl
  have hwf := Set.wellFoundedOn_iff.mp
    (hfinite.wellFoundedOn (r := Function.swap (TransGen h.Links)))
  induction r using hwf.induction with
  | _ r ih =>
    by_cases hr : r.index < h.structs.size
    · refine Acc.intro r fun s hlink => ?_
      by_cases hs : s.index < h.structs.size
      · exact ih s ⟨.single hlink, hs, hr⟩
      · exact hdead s hs
    · exact hdead r hr

/-- A struct has a tree if its values have. -/
theorem exists_denotes_struct (hkeyed : ∀ r, (h.entries r).Keyed) {r : StructRef}
    (hvalues : ∀ e ∈ h.entries r, ∃ t, h.Denotes e.2 t) : ∃ t, h.Denotes (.struct r) t := by
  -- the values give one subtree for each key, as no key stands for two values
  have hkeys : ∀ k, ∃ t, ∀ e ∈ h.entries r, e.1 = k → h.Denotes e.2 t := by
    intro k
    by_cases hk : ∃ e ∈ h.entries r, e.1 = k
    · obtain ⟨e, he, hek⟩ := hk
      obtain ⟨t, ht⟩ := hvalues e he
      refine ⟨t, fun f hf hfk => ?_⟩
      rw [(hkeyed r).eq_of_key hf he (hfk.trans hek.symm)]
      exact ht
    · exact ⟨.data .none, fun e he hek => absurd ⟨e, he, hek⟩ hk⟩
  choose subtree hsubtree using hkeys
  exact ⟨_, .struct fun e he => hsubtree e.1 e he rfl⟩

/-- Every value of a sound heap denotes a tree. -/
theorem Sound.exists_denotes (hs : h.Sound) (v : Value) : ∃ t, h.Denotes v t := by
  have hstructs : ∀ r, ∃ t, h.Denotes (.struct r) t := by
    intro r
    have hr := hs.acc r
    induction hr with
    | intro r _ ih =>
      apply exists_denotes_struct hs.keyed
      intro e he
      cases hvalue : e.2 with
      | struct s => exact ih s ⟨e, he, hvalue⟩
      | object o => exact ⟨_, .object o⟩
      | _ => exact ⟨_, .data (fun _ => Value.noConfusion) fun _ => Value.noConfusion⟩
  cases v with
  | struct r => exact hstructs r
  | object o => exact ⟨_, .object o⟩
  | _ => exact ⟨_, .data (fun _ => Value.noConfusion) fun _ => Value.noConfusion⟩

/-! ## Section 3: Agreement and trees -/

/-- Does the host compare its data by an equivalence? -/
def HostEquivalence (Ω : Type) [HostData Ω] : Prop :=
  Equivalence fun x y : Ω => HostData.same x y = true

/-- References are to the same object if they are the same, or their objects are. -/
theorem sameObject_eq_true {a b : ObjectRef} : h.sameObject a b = true ↔
    a = b ∨ ∃ x y, h.object? a = some x ∧ h.object? b = some y ∧ x.same y = true := by
  unfold sameObject
  rw [Bool.or_eq_true, beq_iff_eq]
  apply or_congr_right
  constructor
  · intro hsame
    split at hsame
    · next x y hx hy => exact ⟨x, y, hx, hy, hsame⟩
    · cases hsame
  · rintro ⟨x, y, hx, hy, hsame⟩
    rw [hx, hy]
    exact hsame

section Objects

variable (hhost : HostEquivalence Ω)

include hhost

theorem sameObject_trans {a b c : ObjectRef} (hab : h.sameObject a b = true)
    (hbc : h.sameObject b c = true) : h.sameObject a c = true := by
  have hobjects : ∀ x y z : HostObject Ω, x.same y = true → y.same z = true → x.same z = true := by
    intro x y z hxy hyz
    cases x with
    | context c =>
      cases y with
      | datum y => cases hxy
      | context d =>
        cases z with
        | datum z => cases hyz
        | context e => exact beq_iff_eq.mpr ((beq_iff_eq.mp hxy).trans (beq_iff_eq.mp hyz))
    | datum x =>
      cases y with
      | context d => cases hxy
      | datum y =>
        cases z with
        | context e => cases hyz
        | datum z => exact hhost.trans hxy hyz
  rcases sameObject_eq_true.mp hab with rfl | ⟨x, y, hx, hy, hxy⟩
  · exact hbc
  · rcases sameObject_eq_true.mp hbc with rfl | ⟨y', z, hy', hz, hyz⟩
    · exact hab
    · cases hy.symm.trans hy'
      exact sameObject_eq_true.mpr (.inr ⟨x, z, hx, hz, hobjects x y z hxy hyz⟩)

theorem sameObject_symm {a b : ObjectRef} (hab : h.sameObject a b = true) :
    h.sameObject b a = true := by
  rw [sameObject_comm fun x y => Bool.eq_iff_iff.mpr ⟨hhost.symm, hhost.symm⟩]
  exact hab

/-- Objects are the same just if the same objects are the same as they are. -/
theorem alike_eq_iff {a b : ObjectRef} : h.alike a = h.alike b ↔ h.sameObject a b = true := by
  constructor
  · intro heq
    have hb : b ∈ h.alike b := sameObject_refl b
    rw [← heq] at hb
    exact hb
  · intro hab
    ext p
    exact ⟨fun ha => sameObject_trans hhost (sameObject_symm hhost hab) ha,
      fun hb => sameObject_trans hhost hab hb⟩

variable (hkeyed : ∀ r, (h.entries r).Keyed)

include hkeyed

/-- Values that agree on every level denote the same tree. -/
theorem Denotes.eq_of_agreeTo {v w : Value} {s t : Tree} (hs : h.Denotes v s) (ht : h.Denotes w t)
    (hagree : ∀ n, h.AgreeTo n v w) : s = t := by
  induction hs generalizing w t with
  | @data v hstruct hobject =>
    cases hagree 0 with
    | same => exact (Denotes.data hstruct hobject).unique ht
    | objects => exact absurd rfl (hobject _)
    | structs => exact absurd rfl (hstruct _)
  | object o =>
    cases hagree 0 with
    | same => exact (Denotes.object o).unique ht
    | @objects _ p hsame =>
      have hclass := (alike_eq_iff hhost).mpr hsame
      rw [(Denotes.object p).unique ht |>.symm, hclass]
  | @struct r subtree hentries ih =>
    cases ht with
    | data hstruct =>
      cases hagree 0 with
      | same => exact absurd rfl (hstruct r)
      | structs => exact absurd rfl (hstruct _)
    | object p => nomatch hagree 0
    | @struct b subtree' hentries' =>
      have hrows : ∀ n, Entries.Agree (h.AgreeTo n) (h.entries r) (h.entries b) :=
        fun n => agreeTo_structs.mp (hagree (n + 1))
      apply node_eq_of_subtree_eq ((hrows 0).sameKeys (hkeyed r))
      intro k hk
      obtain ⟨e, he, rfl⟩ := List.mem_map.mp hk
      obtain ⟨f, hf, hkey, hvalue⟩ := (Entries.Agree.of_forall (hkeyed b) hrows).2 e he
      have hdenotes := hentries' f hf
      rw [hkey] at hdenotes
      exact ih e he hdenotes hvalue

/-- Values that denote the same tree agree on every level. -/
theorem Denotes.agreeTo {v w : Value} {t : Tree} (hv : h.Denotes v t) (hw : h.Denotes w t)
    (n : Nat) : h.AgreeTo n v w := by
  induction hv generalizing w n with
  | data =>
    cases hw with
    | data => exact agreeTo_refl n _
  | object o =>
    generalize htree : Tree.object (h.alike o) = t at hw
    cases hw with
    | data => cases htree
    | struct => cases htree
    | object p => exact agreeTo_objects ((alike_eq_iff hhost).mp (Tree.object.inj htree)) n
  | @struct r subtree hentries ih =>
    generalize htree : Tree.node _ = t at hw
    cases hw with
    | data => cases htree
    | object => cases htree
    | @struct b subtree' hentries' =>
      have hsame := subtree_eq_of_node_eq htree
      cases n with
      | zero => exact .structs trivial
      | succ n =>
        refine agreeTo_structs.mpr ⟨?length, ?values⟩
        case length =>
          have hkeys : Entries.SameKeys (h.entries r) (h.entries b) := fun k => (hsame k).1
          exact hkeys.length_eq (hkeyed r) (hkeyed b)
        case values =>
          intro e he
          have hk : e.1 ∈ (h.entries r).map Prod.fst := List.mem_map_of_mem he
          obtain ⟨f, hf, hkey⟩ := List.mem_map.mp ((hsame e.1).1.mp hk)
          have hdenotes := hentries' f hf
          rw [hkey, ← (hsame e.1).2 hk] at hdenotes
          exact ⟨f, hf, hkey, ih e he hdenotes n⟩

/-- Do the values denote the same tree? -/
def SameTree (h : Heap Ω) (v w : Value) : Prop :=
  ∃ t, h.Denotes v t ∧ h.Denotes w t

omit hhost hkeyed in
theorem SameTree.symm {v w : Value} (hsame : h.SameTree v w) : h.SameTree w v := by
  obtain ⟨t, hv, hw⟩ := hsame
  exact ⟨t, hw, hv⟩

omit hhost hkeyed in
theorem SameTree.trans {v w u : Value} (hvw : h.SameTree v w) (hwu : h.SameTree w u) :
    h.SameTree v u := by
  obtain ⟨s, hv, hw⟩ := hvw
  obtain ⟨t, hw', hu⟩ := hwu
  cases hw.unique hw'
  exact ⟨s, hv, hu⟩

end Objects

/-- What agrees so far nests as deep so far. -/
theorem AgreeTo.nestsBeyond {n : Nat} {v w : Value} (hagree : h.AgreeTo n v w)
    (hdeep : h.NestsBeyond n v) : h.NestsBeyond n w := by
  induction n generalizing v w with
  | zero =>
    obtain ⟨r, rfl, -⟩ := hdeep
    cases hagree with
    | same => exact ⟨r, rfl, trivial⟩
    | structs => exact ⟨_, rfl, trivial⟩
  | succ n ih =>
    obtain ⟨r, rfl, s, ⟨e, he, hes⟩, hdescends⟩ := hdeep
    cases hagree with
    | same => exact ⟨r, rfl, s, ⟨e, he, hes⟩, hdescends⟩
    | @structs _ b hrows =>
      obtain ⟨f, hf, -, hvalue⟩ := hrows.2 e he
      obtain ⟨u, hu, hdescends'⟩ := ih hvalue ⟨s, hes, hdescends⟩
      exact ⟨b, rfl, u, ⟨f, hf, hu⟩, hdescends'⟩

/-! ## Section 4: Equality -/

section Equality

variable (hhost : HostEquivalence Ω) (hs : h.Sound) {v w : Value} {instruction : String}

include hhost hs

/-- Values agree on every level just if they denote the same tree. -/
theorem agreeTo_iff_sameTree : (∀ n, h.AgreeTo n v w) ↔ h.SameTree v w := by
  constructor
  · intro hagree
    obtain ⟨s, hv⟩ := hs.exists_denotes v
    obtain ⟨t, hw⟩ := hs.exists_denotes w
    cases hv.eq_of_agreeTo hhost hs.keyed hw hagree
    exact ⟨s, hv, hw⟩
  · rintro ⟨t, hv, hw⟩
    exact hv.agreeTo hhost hs.keyed hw

/-- An answer says whether the trees are the same. -/
theorem equal_eq_ok_iff_sameTree {b : Bool} (hanswer : h.equal v w instruction = .ok b) :
    b = true ↔ h.SameTree v w :=
  (equal_eq_ok hs.keyed hanswer).trans (agreeTo_iff_sameTree hhost hs)

/-- If one of the sides is shallow, then there is an answer. -/
theorem equal_of_sameTree (hshallow : ¬h.NestsBeyond maxNesting v ∨ ¬h.NestsBeyond maxNesting w)
    (hsame : h.SameTree v w) : h.equal v w instruction = .ok true := by
  obtain ⟨b, hb⟩ := hs.equal_of_shallow hshallow instruction
  rw [hb, (equal_eq_ok_iff_sameTree hhost hs hb).mpr hsame]

/-- Values with the same tree nest equally deep. -/
theorem nestsBeyond_iff_of_sameTree (hsame : h.SameTree v w) (n : Nat) :
    h.NestsBeyond n v ↔ h.NestsBeyond n w :=
  ⟨((agreeTo_iff_sameTree hhost hs).mpr hsame n).nestsBeyond,
    ((agreeTo_iff_sameTree hhost hs).mpr hsame.symm n).nestsBeyond⟩

/-- Structs with the same keys in any order, and the same trees under them, have the same
    tree. -/
theorem sameTree_of_perm {r s : StructRef} {es : Entries} (hperm : (h.entries r).Perm es)
    (hrow : List.Forall₂ (fun e f => e.1 = f.1 ∧ h.SameTree e.2 f.2) es (h.entries s)) :
    h.SameTree (.struct r) (.struct s) := by
  refine (agreeTo_iff_sameTree hhost hs).mp fun n => ?_
  cases n with
  | zero => exact .structs trivial
  | succ n =>
    refine agreeTo_structs.mpr ⟨hperm.length_eq.trans hrow.length_eq, ?_⟩
    intro e he
    obtain ⟨f, hf, hkey, hsame⟩ := exists_of_forall₂ hrow (hperm.mem_iff.mp he)
    exact ⟨f, hf, hkey.symm, (agreeTo_iff_sameTree hhost hs).mpr hsame n⟩

end Equality

end Heap

open Heap in
/-- **Equality is equality of trees.**  In a sound heap every value denotes just one finite tree.
    Let the host compare its data by an equivalence.  Two values of which one is not nested
    beyond `maxNesting` are compared without a fault, and are equal just if they denote the same
    tree.

    So neither the order of entries nor the sharing of structs matters: structs are equal if the
    keys of one, in some order, are those of the other, and the values under them have the same
    trees.  Equality is reflexive, symmetric and transitive. -/
theorem equality_is_equality_of_trees {Ω : Type} [HostData Ω] (hhost : HostEquivalence Ω)
    {h : Heap Ω} (hs : h.Sound) (instruction : String) :
    (∀ v, ∃! t, h.Denotes v t) ∧
    (∀ v w, ¬h.NestsBeyond maxNesting v ∨ ¬h.NestsBeyond maxNesting w →
      ∃ b, h.equal v w instruction = .ok b ∧
        (b = true ↔ ∃ t, h.Denotes v t ∧ h.Denotes w t)) ∧
    (∀ r s es, ¬h.NestsBeyond maxNesting (.struct r) ∨ ¬h.NestsBeyond maxNesting (.struct s) →
      (h.entries r).Perm es →
      List.Forall₂ (fun e f => e.1 = f.1 ∧ ∃ t, h.Denotes e.2 t ∧ h.Denotes f.2 t) es
        (h.entries s) →
      h.equal (.struct r) (.struct s) instruction = .ok true) ∧
    (∀ v, ¬h.NestsBeyond maxNesting v → h.equal v v instruction = .ok true) ∧
    (∀ v w, ¬h.NestsBeyond maxNesting v ∨ ¬h.NestsBeyond maxNesting w →
      h.equal v w instruction = h.equal w v instruction) ∧
    (∀ v w u, ¬h.NestsBeyond maxNesting v ∨ ¬h.NestsBeyond maxNesting w ∨
        ¬h.NestsBeyond maxNesting u →
      h.equal v w instruction = .ok true → h.equal w u instruction = .ok true →
      h.equal v u instruction = .ok true) := by
  refine ⟨?trees, ?answers, ?rows, ?refl, ?symm, ?trans⟩
  case trees =>
    intro v
    obtain ⟨t, ht⟩ := hs.exists_denotes v
    exact ⟨t, ht, fun t' ht' => ht'.unique ht⟩
  case answers =>
    intro v w hshallow
    obtain ⟨b, hb⟩ := hs.equal_of_shallow hshallow instruction
    exact ⟨b, hb, equal_eq_ok_iff_sameTree hhost hs hb⟩
  case rows =>
    intro r s es hshallow hperm hrow
    exact equal_of_sameTree hhost hs hshallow (sameTree_of_perm hhost hs hperm hrow)
  case refl =>
    intro v hshallow
    obtain ⟨t, ht⟩ := hs.exists_denotes v
    exact equal_of_sameTree hhost hs (.inl hshallow) ⟨t, ht, ht⟩
  case symm =>
    intro v w hshallow
    obtain ⟨b, hb⟩ := hs.equal_of_shallow hshallow instruction
    obtain ⟨b', hb'⟩ := hs.equal_of_shallow hshallow.symm instruction
    have hhost' : ∀ x y : Ω, HostData.same x y = HostData.same y x :=
      fun x y => Bool.eq_iff_iff.mpr ⟨hhost.symm, hhost.symm⟩
    rw [hb, hb', hs.equal_comm hhost' hb hb']
  case trans =>
    intro v w u hshallow hvw hwu
    have hsame := (equal_eq_ok_iff_sameTree hhost hs hvw).mp rfl
    have hsame' := (equal_eq_ok_iff_sameTree hhost hs hwu).mp rfl
    refine equal_of_sameTree hhost hs ?_ (hsame.trans hsame')
    rcases hshallow with hv | hw | hu
    · exact .inl hv
    · exact .inl fun hdeep => hw ((nestsBeyond_iff_of_sameTree hhost hs hsame _).mp hdeep)
    · exact .inr hu

/-- Two structs with the same entries in another order, one of which holds a struct twice where
    the other one holds two structs with objects that the host takes for equal. -/
theorem shared_and_unshared_are_equal :
    let _ : HostData Nat := ⟨fun _ => "Modulo", fun x y => decide (x % 5 = y % 5), id⟩
    let h : Heap Nat :=
      ⟨#[[(.number 7, .object ⟨0⟩)], [(.number 7, .object ⟨1⟩)],
        [(.number 0, .struct ⟨0⟩), (.number 1, .struct ⟨0⟩)],
        [(.number 1, .struct ⟨1⟩), (.number 0, .struct ⟨0⟩)]], #[.datum 3, .datum 8]⟩
    h.Sound ∧ ¬h.NestsBeyond maxNesting (.struct ⟨2⟩) ∧
      h.equal (.struct ⟨2⟩) (.struct ⟨3⟩) "EQUAL" = .ok true ∧
      ∃ t, h.Denotes (.struct ⟨2⟩) t ∧ h.Denotes (.struct ⟨3⟩) t := by
  intro _ h
  have hkeyed : ∀ r, (h.entries r).Keyed := by
    rintro ⟨_ | _ | _ | _ | n⟩
    · exact ⟨by decide, by decide⟩
    · exact ⟨by decide, by decide⟩
    · exact ⟨by decide, by decide⟩
    · exact ⟨by decide, by decide⟩
    · exact Entries.keyed_nil
  -- each row holds structs of the rows above it only
  have hdown : ∀ r s, h.Links r s → s.index < r.index := by
    rintro ⟨_ | _ | _ | _ | n⟩ s ⟨e, he, hes⟩
    · cases List.mem_singleton.mp he
      cases hes
    · cases List.mem_singleton.mp he
      cases hes
    · obtain rfl | rfl := List.mem_pair.mp he
      · cases hes
        decide
      · cases hes
        decide
    · obtain rfl | rfl := List.mem_pair.mp he
      · cases hes
        decide
      · cases hes
        decide
    · cases he
  have hs : h.Sound := ⟨Heap.acyclic_of_links_down hdown, hkeyed⟩
  have hshallow : ¬h.NestsBeyond maxNesting (.struct ⟨2⟩) := fun hdeep =>
    absurd (Heap.le_index_of_descends hdown (Heap.nestsBeyond_struct.mp hdeep)) (by decide)
  have hhost : Heap.HostEquivalence Nat := by
    refine ⟨fun x => decide_eq_true rfl, fun hxy => ?_, fun hxy hyz => ?_⟩
    · exact decide_eq_true (of_decide_eq_true hxy).symm
    · exact decide_eq_true ((of_decide_eq_true hxy).trans (of_decide_eq_true hyz))
  obtain ⟨-, hanswers, -⟩ := equality_is_equality_of_trees hhost hs "EQUAL"
  obtain ⟨b, hb, hsame⟩ := hanswers (.struct ⟨2⟩) (.struct ⟨3⟩) (.inl hshallow)
  have hequal : h.equal (.struct ⟨2⟩) (.struct ⟨3⟩) "EQUAL" = .ok true := by rfl
  rw [hequal] at hb
  cases hb
  exact ⟨hs, hshallow, hequal, hsame.mp rfl⟩

end ContractVM
