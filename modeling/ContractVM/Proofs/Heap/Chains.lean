import ContractVM.Proofs.Heap.Closed
import ContractVM.Proofs.Heap.Walks

/-! # Chains of structs

    A struct may be put into any other one while it is empty, and filled afterwards.  So chains
    can be stitched together to any length, although no single put accepts a long one.

    * **Hanging** new structs below a struct, one below the other, makes a chain of them and
      changes no other struct.
    * **Comparing** chains takes a level for each of their structs: it ends with the answer that
      they are equal, or without any if there are too few levels. -/

namespace ContractVM.Heap

/-! ## Section 1: Chains -/

variable {Ω : Type} {h h' : Heap Ω} {key : Value}

/-- A chain of `n` links: every struct but the last one holds the next one and nothing else. -/
def Chain (h : Heap Ω) (key : Value) (P : StructRef → Prop) : Nat → StructRef → Prop
  | 0, r => P r ∧ h.entries r = []
  | n + 1, r => P r ∧ ∃ s, h.entries r = [(key, .struct s)] ∧ h.Chain key P n s

theorem Chain.congr {P Q : StructRef → Prop} (hPQ : ∀ q, P q → Q q)
    (hentries : ∀ q, P q → h'.entries q = h.entries q) {n : Nat} {r : StructRef}
    (hchain : h.Chain key P n r) : h'.Chain key Q n r := by
  induction n generalizing r with
  | zero =>
    obtain ⟨hr, hlast⟩ := hchain
    exact ⟨hPQ r hr, (hentries r hr).trans hlast⟩
  | succ n ih =>
    obtain ⟨hr, s, hrow, hrest⟩ := hchain
    exact ⟨hPQ r hr, s, (hentries r hr).trans hrow, ih hrest⟩

theorem Chain.holds {P : StructRef → Prop} {n : Nat} {r : StructRef}
    (hchain : h.Chain key P n r) : P r := by
  cases n with
  | zero => exact hchain.1
  | succ n => exact hchain.1

/-- Separate chains begin at different structs. -/
theorem Chain.ne {P Q : StructRef → Prop} (hPQ : ∀ q, P q → ¬Q q) {n k : Nat} {r s : StructRef}
    (hr : h.Chain key P n r) (hs : h.Chain key Q k s) : r ≠ s := by
  rintro rfl
  exact hPQ r hr.holds hs.holds

/-- A struct with one entry holds one struct at most. -/
theorem eq_of_links_single {r s t : StructRef} (hrow : h.entries r = [(key, .struct s)])
    (hlink : h.Links r t) : t = s := by
  obtain ⟨e, he, hvalue⟩ := hlink
  rw [hrow, List.mem_singleton] at he
  subst he
  cases hvalue
  rfl

/-- Behind a chain, no more structs are nested than it has. -/
theorem Chain.not_descends {P : StructRef → Prop} {n : Nat} {r : StructRef}
    (hchain : h.Chain key P n r) : ¬h.Descends (n + 1) r := by
  induction n generalizing r with
  | zero =>
    rintro ⟨s, ⟨e, he, -⟩, -⟩
    rw [hchain.2] at he
    cases he
  | succ n ih =>
    rintro ⟨t, hlink, hdescends⟩
    obtain ⟨-, s, hrow, hrest⟩ := hchain
    cases eq_of_links_single hrow hlink
    exact ih hrest hdescends

/-! ## Section 2: Hanging structs into structs -/

/-- The next struct of a heap has no entries yet. -/
theorem entries_next (h : Heap Ω) : h.entries ⟨h.structs.size⟩ = [] :=
  entries_of_size_le (Nat.le_refl _)

variable [HostData Ω]

/-- Puts a new empty struct into a struct. -/
def hang (h : Heap Ω) (r : StructRef) (key : Value) : Heap Ω :=
  (h.newStruct.2.put (.struct r) key h.newStruct.1 "PUT").heap

/-- A new struct may be put into any other one. -/
theorem put_newStruct (hkey : key.isScalar = true) {r : StructRef}
    (hr : r.index < h.structs.size) :
    h.hang r key = h.newStruct.2.insertEntry r key h.newStruct.1 := by
  -- the new struct is empty, so no way leads on from it
  have hleaf : ∀ s, ¬h.newStruct.2.Links ⟨h.structs.size⟩ s := by
    rintro s ⟨e, he, -⟩
    rw [entries_newStruct, entries_next] at he
    cases he
  have hshallow : ¬h.newStruct.2.NestsBeyond (maxNesting - 1) h.newStruct.1 := by
    rintro ⟨s, heq, u, hlink, -⟩
    cases heq
    exact hleaf u hlink
  have hapart : ∀ s, h.newStruct.1 = .struct s →
      ¬Relation.ReflTransGen h.newStruct.2.Links s r := by
    intro s heq hpath
    cases heq
    rcases Relation.ReflTransGen.cases_head hpath with heq | ⟨u, hlink, -⟩
    · rw [← heq] at hr
      exact Nat.lt_irrefl _ hr
    · exact hleaf u hlink
  obtain ⟨seen, hclear⟩ := nesting_of_shallow hshallow hapart
  have hput : h.newStruct.2.putEntry r key h.newStruct.1 "PUT" =
      .ok (h.newStruct.2.insertEntry r key h.newStruct.1) := by
    unfold Heap.putEntry
    rw [hclear]
  unfold hang Heap.put
  rw [Value.asKey_of_isScalar "PUT" hkey]
  dsimp only
  rw [if_neg Value.noConfusion]
  dsimp only [Value.asStruct]
  rw [hput]

theorem size_hang (hkey : key.isScalar = true) {r : StructRef} (hr : r.index < h.structs.size) :
    (h.hang r key).structs.size = h.structs.size + 1 := by
  rw [put_newStruct hkey hr]
  exact (h.newStruct.2.size_setEntries r _).trans h.size_newStruct

theorem entries_hang (hkey : key.isScalar = true) {r : StructRef} (hr : r.index < h.structs.size)
    (hnew : ∀ e ∈ h.entries r, e.1 ≠ key) (q : StructRef) :
    (h.hang r key).entries q =
      if q = r then h.entries r ++ [(key, .struct ⟨h.structs.size⟩)] else h.entries q := by
  have hsize : r.index < h.newStruct.2.structs.size :=
    Nat.lt_trans hr h.size_lt_newStruct
  rw [put_newStruct hkey hr]
  unfold Heap.insertEntry
  rw [entries_setEntries, entries_newStruct, entries_newStruct]
  by_cases hq : q = r
  · subst hq
    rw [if_pos ⟨rfl, hsize⟩, if_pos rfl]
    apply Entries.insert_of_new
    intro e he
    rw [sameKey_of_scalar _ e.1 hkey]
    exact decide_eq_false (hnew e he)
  · rw [if_neg fun hboth => hq hboth.1.symm, if_neg hq]

/-- Hangs a chain of `n` new structs below a struct. -/
def hangChain (key : Value) : Nat → StructRef → Heap Ω → Heap Ω
  | 0, _, h => h
  | n + 1, r, h => hangChain key n ⟨h.structs.size⟩ (h.hang r key)

theorem change_hang (h : Heap Ω) (r : StructRef) (key : Value) :
    Relation.ReflTransGen Change h (h.hang r key) :=
  .head (.newStruct h) (.single (.put ..))

theorem change_hangChain (n : Nat) (r : StructRef) (h : Heap Ω) :
    Relation.ReflTransGen Change h (hangChain key n r h) := by
  induction n generalizing r h with
  | zero => exact .refl
  | succ n ih => exact (h.change_hang r key).trans (ih _ _)

/-- What hangs below the struct is a chain of new structs, and no other struct has changed. -/
theorem chain_hangChain (hkey : key.isScalar = true) (n : Nat) {r : StructRef} {h : Heap Ω}
    (hr : r.index < h.structs.size) (hempty : h.entries r = []) :
    (hangChain key n r h).Chain key
      (fun q => q = r ∨ h.structs.size ≤ q.index ∧ q.index < h.structs.size + n) n r ∧
    (∀ q, q ≠ r → q.index < h.structs.size → (hangChain key n r h).entries q = h.entries q) ∧
    (hangChain key n r h).structs.size = h.structs.size + n := by
  induction n generalizing r h with
  | zero => exact ⟨⟨.inl rfl, hempty⟩, fun _ _ _ => rfl, rfl⟩
  | succ n ih =>
    have hsize : (h.hang r key).structs.size = h.structs.size + 1 := size_hang hkey hr
    have hentries :=
      entries_hang hkey hr (by rw [hempty]; exact fun e he => absurd he List.not_mem_nil)
    have hnext : (h.hang r key).entries ⟨h.structs.size⟩ = [] := by
      rw [hentries, if_neg fun heq => by rw [← heq] at hr; exact Nat.lt_irrefl _ hr]
      exact entries_next h
    -- the rest hangs below the struct that has just been made
    obtain ⟨hchain, hkept, hlast⟩ := ih (r := ⟨h.structs.size⟩) (h := h.hang r key)
      (by rw [hsize]; exact Nat.lt_succ_self _) hnext
    have hne : ∀ q : StructRef, q.index < h.structs.size → q ≠ ⟨h.structs.size⟩ := by
      rintro q hq rfl
      exact Nat.lt_irrefl _ hq
    refine ⟨⟨.inl rfl, ⟨h.structs.size⟩, ?row, ?rest⟩, ?kept, ?size⟩
    case row =>
      show (hangChain key n ⟨h.structs.size⟩ (h.hang r key)).entries r = _
      rw [hkept r (hne r hr) (by omega), hentries, if_pos rfl, hempty, List.nil_append]
    case rest =>
      apply hchain.congr
      · rintro q (rfl | hq)
        · exact .inr ⟨Nat.le_refl _, Nat.lt_add_of_pos_right (Nat.succ_pos n)⟩
        · exact .inr (by omega)
      · exact fun _ _ => rfl
    case kept =>
      intro q hqr hq
      show (hangChain key n ⟨h.structs.size⟩ (h.hang r key)).entries q = _
      rw [hkept q (hne q hq) (by omega), hentries, if_neg hqr]
    case size =>
      show (hangChain key n ⟨h.structs.size⟩ (h.hang r key)).structs.size = _
      omega

/-! ## Section 3: Comparing chains -/

variable {P Q : StructRef → Prop}

/-- What stands under a scalar key is found there, if no key before it is the same. -/
theorem get?_of_scalar (hkey : key.isScalar = true) (value : Value) (front : Entries)
    (hfront : ∀ e ∈ front, e.1 ≠ key) (back : Entries) :
    Entries.get? h.sameKey key (front ++ (key, value) :: back) = some value := by
  have hsame : ∀ k, h.sameKey k key = decide (k = key) := fun k => sameKey_of_scalar _ k hkey
  have hmiss : front.find? (fun entry => h.sameKey entry.1 key) = none := by
    apply List.find?_eq_none.mpr
    intro e he
    rw [hsame, decide_eq_true_eq]
    exact hfront e he
  unfold Entries.get?
  rw [List.find?_append, hmiss, List.find?_cons_of_pos (by rw [hsame]; exact decide_eq_true rfl)]
  rfl

theorem get?_single (hkey : key.isScalar = true) (value : Value) :
    Entries.get? h.sameKey key [(key, value)] = some value :=
  get?_of_scalar hkey value [] (fun _ he => absurd he List.not_mem_nil) []

/-- A pair that is known is not compared again. -/
theorem compareWithin_of_mem {proven : ProvenPairs} {a b : StructRef} (hne : a ≠ b)
    (hmem : (a, b) ∈ proven) (below : Nat) :
    h.compareWithin h.sameKey (below + 1) proven (.struct a) (.struct b) = .equal proven := by
  rw [compareWithin, if_neg hne, if_pos hmem]

section Pairs

variable {proven : ProvenPairs} {a b : StructRef} {below : Nat} (hne : a ≠ b)
  (hmem : (a, b) ∉ proven)

include hne hmem

/-- A pair that is not known is equal if the rows are, and is known from then on. -/
theorem compareWithin_of_equal (hlength : (h.entries a).length = (h.entries b).length)
    {proven' : ProvenPairs}
    (hrows : Entries.compare h.sameKey (h.compareWithin h.sameKey below) (h.entries b)
      (h.entries a) proven = .equal proven') :
    h.compareWithin h.sameKey (below + 1) proven (.struct a) (.struct b) =
      .equal ((a, b) :: proven') := by
  rw [compareWithin_of_new hne hmem hlength, hrows]
  rfl

theorem compareWithin_of_tooDeep (hlength : (h.entries a).length = (h.entries b).length)
    (hrows : Entries.compare h.sameKey (h.compareWithin h.sameKey below) (h.entries b)
      (h.entries a) proven = .tooDeep) :
    h.compareWithin h.sameKey (below + 1) proven (.struct a) (.struct b) = .tooDeep := by
  rw [compareWithin_of_new hne hmem hlength, hrows]
  rfl

/-! Structs with one entry each, under the same key, compare as its values do. -/

variable (hkey : key.isScalar = true) {v w : Value} (ha : h.entries a = [(key, v)])
  (hb : h.entries b = [(key, w)])

include hkey ha hb

theorem compareWithin_single_of_equal {proven' : ProvenPairs}
    (hvalues : h.compareWithin h.sameKey below proven v w = .equal proven') :
    h.compareWithin h.sameKey (below + 1) proven (.struct a) (.struct b) =
      .equal ((a, b) :: proven') := by
  apply compareWithin_of_equal hne hmem
  · rw [ha, hb]
    rfl
  · rw [ha, hb]
    simp only [Entries.compare, get?_single hkey, hvalues]

theorem compareWithin_single_of_tooDeep
    (hvalues : h.compareWithin h.sameKey below proven v w = .tooDeep) :
    h.compareWithin h.sameKey (below + 1) proven (.struct a) (.struct b) = .tooDeep := by
  apply compareWithin_of_tooDeep hne hmem
  · rw [ha, hb]
    rfl
  · rw [ha, hb]
    simp only [Entries.compare, get?_single hkey, hvalues]

end Pairs

/-- Chains of the same length are equal if the comparison comes to their ends, and the pair of
    their first structs is known from then on. -/
theorem compareWithin_chains (hkey : key.isScalar = true) (hPQ : ∀ q, P q → ¬Q q)
    {n levels : Nat} (hlevels : n < levels) {r s : StructRef} (hr : h.Chain key P n r)
    (hs : h.Chain key Q n s) :
    ∃ proven, h.compareWithin h.sameKey levels [] (.struct r) (.struct s) = .equal proven ∧
      (r, s) ∈ proven := by
  induction levels generalizing n r s with
  | zero => exact absurd hlevels (Nat.not_lt_zero n)
  | succ below ih =>
    have hne := hr.ne hPQ hs
    cases n with
    | zero =>
      have hrows : Entries.compare h.sameKey (h.compareWithin h.sameKey below) (h.entries s)
          (h.entries r) [] = .equal [] := by
        rw [hr.2, hs.2]
        rfl
      have hlength : (h.entries r).length = (h.entries s).length := by rw [hr.2, hs.2]
      exact ⟨_, compareWithin_of_equal hne List.not_mem_nil hlength hrows, List.mem_cons_self⟩
    | succ n =>
      obtain ⟨-, r', hrow, hrest⟩ := hr
      obtain ⟨-, s', hrow', hrest'⟩ := hs
      obtain ⟨proven, hequal, -⟩ := ih (Nat.lt_of_succ_lt_succ hlevels) hrest hrest'
      have hpair := compareWithin_single_of_equal hne List.not_mem_nil hkey hrow hrow' hequal
      exact ⟨_, hpair, List.mem_cons_self⟩

/-- Chains that are longer than the comparison goes have no answer. -/
theorem compareWithin_long_chains (hkey : key.isScalar = true) (hPQ : ∀ q, P q → ¬Q q)
    {n levels : Nat} (hlevels : levels ≤ n) {r s : StructRef} (hr : h.Chain key P n r)
    (hs : h.Chain key Q n s) :
    h.compareWithin h.sameKey levels [] (.struct r) (.struct s) = .tooDeep := by
  induction levels generalizing n r s with
  | zero =>
    rw [compareWithin]
    exact if_neg (hr.ne hPQ hs)
  | succ below ih =>
    have hne := hr.ne hPQ hs
    obtain ⟨n, rfl⟩ : ∃ k, n = k + 1 := ⟨n - 1, by omega⟩
    obtain ⟨-, r', hrow, hrest⟩ := hr
    obtain ⟨-, s', hrow', hrest'⟩ := hs
    have hvalues := ih (Nat.le_of_succ_le_succ hlevels) hrest hrest'
    exact compareWithin_single_of_tooDeep hne List.not_mem_nil hkey hrow hrow' hvalues

end ContractVM.Heap
