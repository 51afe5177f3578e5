import ContractVM.Command.Execute
import ContractVM.Proofs.Heap.Chains
import ContractVM.Proofs.Heap.Unfolding

/-! # Both ways of comparing

    Agreement is symmetric, and an answer says what the values look like.  So two values that
    are compared both ways have the same answer, if there is an answer both ways:

    * **Shallow values** always have one: only values that are nested beyond `maxNesting` fault.
    * **Deep values** may have an answer one way and none the other way.  A pair that was found
      equal is not compared again, however deep it stands where it is met the second time; so
      it matters whether the first entry of the left side meets it near the top. -/

namespace ContractVM

namespace Heap

variable {Ω : Type} [HostData Ω] {h : Heap Ω}

/-! ## Section 1: Answers -/

/-- Equality without a fault is equality, as long as there is an answer. -/
theorem equals_eq (h : Heap Ω) (v w : Value) (instruction : String) :
    h.equals v w = match h.equal v w instruction with
      | .ok b => b
      | .error _ => false := by
  unfold equals equal
  cases h.compareWithin h.sameKey maxNesting [] v w with
  | equal proven => rfl
  | different => rfl
  | tooDeep => rfl

variable {v w : Value} {instruction : String}

theorem equal_of_compareWithin {proven : ProvenPairs}
    (hequal : h.compareWithin h.sameKey maxNesting [] v w = .equal proven) :
    h.equal v w instruction = .ok true := by
  unfold equal
  rw [hequal]

theorem equal_of_tooDeep (hdeep : h.compareWithin h.sameKey maxNesting [] v w = .tooDeep) :
    h.equal v w instruction = .error (.outOfRange instruction .nesting) := by
  unfold equal
  rw [hdeep]

/-- An answer says whether the values agree on every level, even if structs hold themselves. -/
theorem equal_eq_ok (hkeyed : ∀ r, (h.entries r).Keyed) {b : Bool}
    (hanswer : h.equal v w instruction = .ok b) : b = true ↔ ∀ n, h.AgreeTo n v w := by
  have hnone : h.Agreed [] := fun p hp => absurd hp List.not_mem_nil
  unfold equal at hanswer
  split at hanswer
  · next proven hequal =>
    cases hanswer
    exact iff_of_true rfl (compareWithin_equal hkeyed maxNesting hnone hequal).2
  · next hdifferent =>
    cases hanswer
    obtain ⟨n, hn⟩ := compareWithin_different hkeyed maxNesting hnone hdifferent
    exact iff_of_false Bool.false_ne_true fun hall => hn (hall n)
  · cases hanswer

theorem Sound.equal_eq_error (hs : h.Sound) {f : Fault}
    (hfault : h.equal v w instruction = .error f) :
    f = .outOfRange instruction .nesting ∧ h.NestsBeyond maxNesting v ∧
      h.NestsBeyond maxNesting w := by
  unfold equal at hfault
  split at hfault
  · cases hfault
  · cases hfault
  · next hdeep =>
    cases hfault
    exact ⟨rfl, compareWithin_tooDeep hs.keyed maxNesting hdeep⟩

/-- Answers do not depend on the order of the sides. -/
theorem Sound.equal_comm (hs : h.Sound)
    (hhost : ∀ x y : Ω, HostData.same x y = HostData.same y x) {b b' : Bool}
    (hanswer : h.equal v w instruction = .ok b) (hanswer' : h.equal w v instruction = .ok b') :
    b = b' := by
  rw [Bool.eq_iff_iff, equal_eq_ok hs.keyed hanswer, equal_eq_ok hs.keyed hanswer']
  constructor
  · exact fun hagree n => (hagree n).symm hhost hs.keyed
  · exact fun hagree n => (hagree n).symm hhost hs.keyed

theorem Sound.equal_of_shallow (hs : h.Sound)
    (hshallow : ¬h.NestsBeyond maxNesting v ∨ ¬h.NestsBeyond maxNesting w)
    (instruction : String) : ∃ b, h.equal v w instruction = .ok b := by
  cases hequal : h.equal v w instruction with
  | ok b => exact ⟨b, rfl⟩
  | error f =>
    obtain ⟨-, hv, hw⟩ := hs.equal_eq_error hequal
    rcases hshallow with hnot | hnot
    · exact absurd hv hnot
    · exact absurd hw hnot

/-! ## Section 2: A comparison that has an answer one way only -/

/-- Two structs with an entry `0` and an entry `1`, in one order and in the other.  The entry
    `1` holds a struct that holds what stands in the entry `0`. -/
def knot : Heap Empty :=
  let h := (empty.newStruct.2).newStruct.2
  let h := (h.hang ⟨0⟩ (.number 0)).hang ⟨0⟩ (.number 1)
  let h := (h.hang ⟨1⟩ (.number 1)).hang ⟨1⟩ (.number 0)
  let h := (h.put (.struct ⟨3⟩) (.number 0) (.struct ⟨2⟩) "PUT").heap
  (h.put (.struct ⟨4⟩) (.number 0) (.struct ⟨5⟩) "PUT").heap

/-- The same, with a chain below each of the entries `0`. -/
def stitched (links : Nat) : Heap Empty :=
  hangChain (.number 0) links ⟨5⟩ (hangChain (.number 0) links ⟨2⟩ knot)

theorem structs_knot : knot.structs =
    #[[(.number 0, .struct ⟨2⟩), (.number 1, .struct ⟨3⟩)],
      [(.number 1, .struct ⟨4⟩), (.number 0, .struct ⟨5⟩)],
      [], [(.number 0, .struct ⟨2⟩)], [(.number 0, .struct ⟨5⟩)], []] := by
  -- in stages, since every operation looks at its heap more than once
  have hleft : (empty.newStruct.2.newStruct.2.hang ⟨0⟩ (.number 0)).hang ⟨0⟩ (.number 1) =
      (⟨#[[(.number 0, .struct ⟨2⟩), (.number 1, .struct ⟨3⟩)], [], [], []], #[]⟩ :
        Heap Empty) := by
    rfl
  have hright : ((⟨#[[(.number 0, .struct ⟨2⟩), (.number 1, .struct ⟨3⟩)], [], [], []], #[]⟩ :
        Heap Empty).hang ⟨1⟩ (.number 1)).hang ⟨1⟩ (.number 0) =
      ⟨#[[(.number 0, .struct ⟨2⟩), (.number 1, .struct ⟨3⟩)],
        [(.number 1, .struct ⟨4⟩), (.number 0, .struct ⟨5⟩)], [], [], [], []], #[]⟩ := by
    rfl
  have hends : (((⟨#[[(.number 0, .struct ⟨2⟩), (.number 1, .struct ⟨3⟩)],
        [(.number 1, .struct ⟨4⟩), (.number 0, .struct ⟨5⟩)], [], [], [], []], #[]⟩ :
        Heap Empty).put (.struct ⟨3⟩) (.number 0) (.struct ⟨2⟩) "PUT").heap.put
        (.struct ⟨4⟩) (.number 0) (.struct ⟨5⟩) "PUT").heap =
      ⟨#[[(.number 0, .struct ⟨2⟩), (.number 1, .struct ⟨3⟩)],
        [(.number 1, .struct ⟨4⟩), (.number 0, .struct ⟨5⟩)],
        [], [(.number 0, .struct ⟨2⟩)], [(.number 0, .struct ⟨5⟩)], []], #[]⟩ := by
    rfl
  unfold knot
  dsimp only
  rw [hleft, hright, hends]

theorem change_knot : Relation.ReflTransGen Change empty knot := by
  have hpair : Relation.ReflTransGen Change empty (empty (Ω := Empty)).newStruct.2.newStruct.2 :=
    .head (.newStruct _) (.single (.newStruct _))
  have hrows := (hpair.trans (change_hang _ ⟨0⟩ (.number 0))).trans (change_hang _ ⟨0⟩ (.number 1))
  have hrows' := (hrows.trans (change_hang _ ⟨1⟩ (.number 1))).trans (change_hang _ ⟨1⟩ (.number 0))
  exact (hrows'.tail (.put ..)).tail (.put ..)

theorem change_stitched (links : Nat) : Relation.ReflTransGen Change empty (stitched links) :=
  (change_knot.trans (change_hangChain _ _ _)).trans (change_hangChain _ _ _)

/-- The structs of `knot` with one chain of structs below the struct `2`, and another one below
    the struct `5`. -/
structure Stitched (h : Heap Empty) (links : Nat) (P Q : StructRef → Prop) : Prop where
  apart : ∀ q, P q → ¬Q q
  first : h.Chain (.number 0) P links ⟨2⟩
  second : h.Chain (.number 0) Q links ⟨5⟩
  left : h.entries ⟨0⟩ = [(.number 0, .struct ⟨2⟩), (.number 1, .struct ⟨3⟩)]
  right : h.entries ⟨1⟩ = [(.number 1, .struct ⟨4⟩), (.number 0, .struct ⟨5⟩)]
  left_end : h.entries ⟨3⟩ = [(.number 0, .struct ⟨2⟩)]
  right_end : h.entries ⟨4⟩ = [(.number 0, .struct ⟨5⟩)]

theorem stitched_stitched (links : Nat) : ∃ P Q, Stitched (stitched links) links P Q := by
  have hentries : ∀ r, knot.entries r = knot.structs.getD r.index [] := fun _ => rfl
  have hsize : knot.structs.size = 6 := by
    rw [structs_knot]
    rfl
  have hempty : knot.entries ⟨2⟩ = [] := by
    rw [hentries, structs_knot]
    rfl
  have hkey : (Value.number 0).isScalar = true := rfl
  obtain ⟨hfirst, hkept, hsize₁⟩ := chain_hangChain hkey links
    (by rw [hsize]; decide) hempty
  have hempty' : (hangChain (.number 0) links ⟨2⟩ knot).entries ⟨5⟩ = [] := by
    rw [hkept ⟨5⟩ (by decide) (by rw [hsize]; decide), hentries, structs_knot]
    rfl
  obtain ⟨hsecond, hkept', -⟩ := chain_hangChain hkey links
    (by rw [hsize₁, hsize]; exact Nat.lt_add_right links (by decide)) hempty'
  rw [hsize] at hsize₁ hfirst hkept
  rw [hsize₁] at hsecond hkept'
  -- the first chain is old when the second one is made
  have hfirst' : (stitched links).Chain (.number 0)
      (fun q => q = ⟨2⟩ ∨ 6 ≤ q.index ∧ q.index < 6 + links) links ⟨2⟩ := by
    apply hfirst.congr (fun q hq => hq)
    rintro q (rfl | hq)
    · exact hkept' _ (by decide) (Nat.lt_add_right links (by decide))
    · apply hkept' q ?_ hq.2
      rintro rfl
      exact absurd hq.1 (by decide)
  -- and the structs above the chains are not touched at all
  have hknot : ∀ r : StructRef, r.index < 6 → r ≠ ⟨2⟩ → r ≠ ⟨5⟩ →
      (stitched links).entries r = knot.structs.getD r.index [] := by
    intro r hr hr₂ hr₅
    exact (hkept' r hr₅ (by omega)).trans (hkept r hr₂ hr)
  rw [structs_knot] at hknot
  refine ⟨_, _, ?apart, hfirst', hsecond, hknot ⟨0⟩ ?_ ?_ ?_, hknot ⟨1⟩ ?_ ?_ ?_,
    hknot ⟨3⟩ ?_ ?_ ?_, hknot ⟨4⟩ ?_ ?_ ?_⟩
  case apart =>
    rintro q (rfl | hq) (hq' | hq')
    · cases hq'
    · exact absurd (Nat.le_of_add_right_le hq'.1) (by decide)
    · subst hq'
      exact absurd hq.1 (by decide)
    · omega
  all_goals decide

namespace Stitched

variable {h : Heap Empty} {links : Nat} {P Q : StructRef → Prop}

/-- One way, the chains are met in the entries `0` first, near enough to the top, and they are
    known when they are met again in the entries `1`. -/
theorem compareWithin_eq (hstitched : Stitched h links P Q) (hlinks : links ≤ 126) :
    ∃ proven, h.compareWithin h.sameKey maxNesting [] (.struct ⟨0⟩) (.struct ⟨1⟩) =
      .equal proven := by
  have hkey : (Value.number 0).isScalar = true := rfl
  obtain ⟨proven, hchains, hmem⟩ := compareWithin_chains hkey hstitched.apart
    (Nat.lt_succ_of_le hlinks) hstitched.first hstitched.second
  have hknown := compareWithin_of_mem (h := h) (by decide) hmem 125
  obtain ⟨proven', hinner⟩ : ∃ proven', h.compareWithin h.sameKey 127 proven
      (.struct ⟨3⟩) (.struct ⟨4⟩) = .equal proven' := by
    by_cases hmet : ((⟨3⟩, ⟨4⟩) : StructRef × StructRef) ∈ proven
    · exact ⟨proven, compareWithin_of_mem (by decide) hmet 126⟩
    · exact ⟨_, compareWithin_single_of_equal (by decide) hmet hkey hstitched.left_end
        hstitched.right_end hknown⟩
  have hfind₀ : Entries.get? h.sameKey (.number 0)
      [(.number 1, .struct ⟨4⟩), (.number 0, .struct ⟨5⟩)] = some (.struct ⟨5⟩) :=
    get?_of_scalar hkey _ [(.number 1, .struct ⟨4⟩)] (by decide) []
  have hfind₁ : Entries.get? h.sameKey (.number 1)
      [(.number 1, .struct ⟨4⟩), (.number 0, .struct ⟨5⟩)] = some (.struct ⟨4⟩) :=
    get?_of_scalar rfl _ [] (by decide) _
  have hrows : Entries.compare h.sameKey (h.compareWithin h.sameKey 127)
      (h.entries ⟨1⟩) (h.entries ⟨0⟩) [] = .equal proven' := by
    rw [hstitched.left, hstitched.right]
    simp only [Entries.compare, hfind₀, hchains, hfind₁, hinner]
  have hlength : (h.entries ⟨0⟩).length = (h.entries ⟨1⟩).length := by
    rw [hstitched.left, hstitched.right]
    rfl
  exact ⟨_, compareWithin_of_equal (by decide) List.not_mem_nil hlength hrows⟩

/-- The other way, they are met in the entries `1` first, one level deeper. -/
theorem compareWithin_back_eq (hstitched : Stitched h links P Q) (hlinks : 126 ≤ links) :
    h.compareWithin h.sameKey maxNesting [] (.struct ⟨1⟩) (.struct ⟨0⟩) = .tooDeep := by
  have hkey : (Value.number 0).isScalar = true := rfl
  have hchains := compareWithin_long_chains hkey (fun q hq hp => hstitched.apart q hp hq) hlinks
    hstitched.second hstitched.first
  have hinner := compareWithin_single_of_tooDeep (by decide) List.not_mem_nil hkey
    hstitched.right_end hstitched.left_end hchains
  have hfind₁ : Entries.get? h.sameKey (.number 1)
      [(.number 0, .struct ⟨2⟩), (.number 1, .struct ⟨3⟩)] = some (.struct ⟨3⟩) :=
    get?_of_scalar rfl _ [(.number 0, .struct ⟨2⟩)] (by decide) []
  have hrows : Entries.compare h.sameKey (h.compareWithin h.sameKey 127)
      (h.entries ⟨0⟩) (h.entries ⟨1⟩) [] = .tooDeep := by
    rw [hstitched.left, hstitched.right]
    simp only [Entries.compare, hfind₁, hinner]
  have hlength : (h.entries ⟨1⟩).length = (h.entries ⟨0⟩).length := by
    rw [hstitched.left, hstitched.right]
    rfl
  exact compareWithin_of_tooDeep (by decide) List.not_mem_nil hlength hrows

/-- Below the first struct, no chain is longer than the one through its entry `1`. -/
theorem not_descends (hstitched : Stitched h links P Q) : ¬h.Descends (links + 3) ⟨0⟩ := by
  have hchain := hstitched.first.not_descends
  have hend : ¬h.Descends (links + 2) ⟨3⟩ := by
    rintro ⟨s, hlink, hdescends⟩
    cases eq_of_links_single hstitched.left_end hlink
    exact hchain hdescends
  rintro ⟨s, ⟨e, he, hvalue⟩, hdescends⟩
  rw [hstitched.left, List.mem_pair] at he
  rcases he with rfl | rfl
  · cases hvalue
    exact hchain (hdescends.mono (Nat.le_succ _))
  · cases hvalue
    exact hend hdescends

end Stitched

end Heap

/-- **Equality is symmetric where it answers.** Let a heap arise from the empty one by checked
    operations, and let the host compare its data symmetrically.  If two values are compared
    both ways, and there is an answer both ways, then it is the same one.  The only fault is
    that of nesting, and it arises only if both values are nested beyond `maxNesting`; so if
    one of them is not, then both comparisons answer alike, and equality without a fault is
    symmetric, too. -/
theorem equality_is_symmetric_where_answered {Ω : Type} [HostData Ω]
    (hhost : ∀ x y : Ω, HostData.same x y = HostData.same y x) {h : Heap Ω}
    (hreach : Relation.ReflTransGen Heap.Change Heap.empty h) (v w : Value)
    (instruction : String) :
    (∀ b b', h.equal v w instruction = .ok b → h.equal w v instruction = .ok b' → b = b') ∧
    (∀ f, h.equal v w instruction = .error f → f = .outOfRange instruction .nesting ∧
      h.NestsBeyond maxNesting v ∧ h.NestsBeyond maxNesting w) ∧
    (¬h.NestsBeyond maxNesting v ∨ ¬h.NestsBeyond maxNesting w →
      ∃ b, h.equal v w instruction = .ok b ∧ h.equal w v instruction = .ok b ∧
        h.equals v w = b ∧ h.equals w v = b) := by
  have hs : h.Sound := by
    induction hreach with
    | refl => exact Heap.sound_of_size_eq_zero rfl
    | tail _ hchange ih => exact ih.change hchange
  refine ⟨fun b b' => hs.equal_comm hhost, fun f => hs.equal_eq_error, ?_⟩
  intro hshallow
  obtain ⟨b, hb⟩ := hs.equal_of_shallow hshallow instruction
  obtain ⟨b', hb'⟩ := hs.equal_of_shallow hshallow.symm instruction
  cases hs.equal_comm hhost hb hb'
  refine ⟨b, hb, hb', ?_, ?_⟩
  · rw [h.equals_eq v w instruction, hb]
  · rw [h.equals_eq w v instruction, hb']

/-- As long as the chains have less than 126 links, the two structs are equal both ways. -/
theorem short_chains_are_equal_both_ways :
    (Heap.stitched 125).equal (.struct ⟨0⟩) (.struct ⟨1⟩) "EQUAL" = .ok true ∧
    (Heap.stitched 125).equal (.struct ⟨1⟩) (.struct ⟨0⟩) "EQUAL" = .ok true := by
  obtain ⟨P, Q, hstitched⟩ := Heap.stitched_stitched 125
  obtain ⟨-, -, hshallow⟩ := equality_is_symmetric_where_answered (fun x : Empty => x.elim)
    (Heap.change_stitched 125) (.struct ⟨0⟩) (.struct ⟨1⟩) "EQUAL"
  obtain ⟨b, hway, hback, -⟩ := hshallow (.inl fun hdeep =>
    hstitched.not_descends (Heap.nestsBeyond_struct.mp hdeep))
  obtain ⟨proven, hequal⟩ := hstitched.compareWithin_eq (by decide)
  have hanswer : Except.ok b = .ok true := hway.symm.trans (Heap.equal_of_compareWithin hequal)
  cases hanswer
  exact ⟨hway, hback⟩

/-- With one link more, they are equal one way, and nested too deep the other way. -/
theorem equality_is_not_symmetric :
    Relation.ReflTransGen Heap.Change Heap.empty (Heap.stitched 126) ∧
    (Heap.stitched 126).equal (.struct ⟨0⟩) (.struct ⟨1⟩) "EQUAL" = .ok true ∧
    (Heap.stitched 126).equal (.struct ⟨1⟩) (.struct ⟨0⟩) "EQUAL" =
      .error (.outOfRange "EQUAL" .nesting) ∧
    (Heap.stitched 126).equals (.struct ⟨0⟩) (.struct ⟨1⟩) = true ∧
    (Heap.stitched 126).equals (.struct ⟨1⟩) (.struct ⟨0⟩) = false := by
  obtain ⟨P, Q, hstitched⟩ := Heap.stitched_stitched 126
  obtain ⟨proven, hequal⟩ := hstitched.compareWithin_eq (Nat.le_refl 126)
  have hway : (Heap.stitched 126).equal (.struct ⟨0⟩) (.struct ⟨1⟩) "EQUAL" = .ok true :=
    Heap.equal_of_compareWithin hequal
  have hback : (Heap.stitched 126).equal (.struct ⟨1⟩) (.struct ⟨0⟩) "EQUAL" =
      .error (.outOfRange "EQUAL" .nesting) :=
    Heap.equal_of_tooDeep (hstitched.compareWithin_back_eq (Nat.le_refl 126))
  refine ⟨Heap.change_stitched 126, hway, hback, ?_, ?_⟩
  · rw [Heap.equals_eq _ _ _ "EQUAL", hway]
  · rw [Heap.equals_eq _ _ _ "EQUAL", hback]

end ContractVM
