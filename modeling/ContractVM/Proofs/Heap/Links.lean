import ContractVM.Proofs.Heap.Entries
import Mathlib.Logic.Relation

/-! # Links between structs

    A struct links to the structs that its entries hold:

    * **Cycles** are not closed by links to structs from which there is no way back.
    * **Chains** of links say how deep structs are nested in one another.
    * **The search** before a value is put covers all structs behind it, although it skips
      those that it has met: what it covers is closed under links, and each link leads to a
      struct that was searched with fewer levels left.  So it finds every way to the target
      and every chain that is too long, and it finds nothing else. -/

namespace ContractVM.Heap

open Relation

variable {Ω : Type} {h h' : Heap Ω}

/-! ## Section 1: Cycles -/

/-- Does an entry of the struct `r` hold the struct `s`? -/
def Links (h : Heap Ω) (r s : StructRef) : Prop :=
  ∃ e ∈ h.entries r, e.2 = .struct s

/-- New links from one struct to others from which it cannot be reached close no cycle. -/
theorem acyclic_of_links {t : StructRef} (hacyclic : ∀ r, ¬TransGen h.Links r r)
    (hlinks : ∀ r s, h'.Links r s → h.Links r s ∨ (r = t ∧ ¬ReflTransGen h.Links s t)) :
    ∀ r, ¬TransGen h'.Links r r := by
  -- a path is old, or it has passed `t` and gone on where there is no way back to it
  have hpath : ∀ r s, TransGen h'.Links r s → TransGen h.Links r s ∨
      ∃ c, ReflTransGen h.Links r t ∧ ¬ReflTransGen h.Links c t ∧ ReflTransGen h.Links c s := by
    intro r s hrs
    induction hrs with
    | single hlink =>
      rcases hlinks _ _ hlink with hold | ⟨rfl, hnew⟩
      · exact .inl (.single hold)
      · exact .inr ⟨_, .refl, hnew, .refl⟩
    | tail _ hlink ih =>
      rcases hlinks _ _ hlink with hold | ⟨rfl, hnew⟩
      · rcases ih with hleft | ⟨c, hr, hc, hback⟩
        · exact .inl (hleft.tail hold)
        · exact .inr ⟨c, hr, hc, hback.tail hold⟩
      · rcases ih with hleft | ⟨c, hr, hc, hback⟩
        · exact .inr ⟨_, hleft.to_reflTransGen, hnew, .refl⟩
        · exact absurd hback hc
  intro r hcycle
  rcases hpath r r hcycle with hold | ⟨c, hr, hc, hback⟩
  · exact hacyclic r hold
  · exact hc (hback.trans hr)

/-! ## Section 2: Chains -/

/-- Does a chain of `n` links begin at the struct? -/
def Descends (h : Heap Ω) : Nat → StructRef → Prop
  | 0, _ => True
  | n + 1, r => ∃ s, h.Links r s ∧ h.Descends n s

/-- Are more than `n` structs nested in one another behind the value? -/
def NestsBeyond (h : Heap Ω) (n : Nat) (v : Value) : Prop :=
  ∃ r, v = .struct r ∧ h.Descends n r

/-- A chain holds shorter ones. -/
theorem Descends.mono {n k : Nat} (hnk : n ≤ k) {r : StructRef} (hr : h.Descends k r) :
    h.Descends n r := by
  induction n generalizing k r with
  | zero => exact trivial
  | succ n ih =>
    obtain ⟨k, rfl⟩ : ∃ j, k = j + 1 := ⟨k - 1, by omega⟩
    obtain ⟨s, hlink, hs⟩ := hr
    exact ⟨s, hlink, ih (by omega) hs⟩

theorem nestsBeyond_struct {n : Nat} {r : StructRef} :
    h.NestsBeyond n (.struct r) ↔ h.Descends n r := by
  constructor
  · rintro ⟨s, heq, hs⟩
    cases heq
    exact hs
  · exact fun hr => ⟨r, rfl, hr⟩

/-! ## Section 3: What the search covers -/

/-- Was the struct searched with at most so many levels left? -/
def SearchedIn (seen : Searched) (levels : Nat) (r : StructRef) : Prop :=
  ∃ level, (r, level) ∈ seen ∧ level ≤ levels

/-- A search went on from `seen` to `seen'`: the structs that are new differ from `target`,
    and their links lead to structs that were seen with fewer levels left. -/
structure Covered (h : Heap Ω) (target : StructRef) (seen seen' : Searched) : Prop where
  kept : ∀ p ∈ seen, p ∈ seen'
  missed : ∀ p ∈ seen', p ∉ seen → p.1 ≠ target
  closed : ∀ r below, (r, below + 1) ∈ seen' → (r, below + 1) ∉ seen →
    ∀ s, h.Links r s → SearchedIn seen' below s
  positive : ∀ p ∈ seen', p ∉ seen → 0 < p.2

variable {target : StructRef} {seen seen₁ seen₂ : Searched}

theorem Covered.refl (h : Heap Ω) (target : StructRef) (seen : Searched) :
    h.Covered target seen seen where
  kept _ hp := hp
  missed _ hp hnew := absurd hp hnew
  closed _ _ hp hnew := absurd hp hnew
  positive _ hp hnew := absurd hp hnew

/-- What was searched stays so. -/
theorem Covered.searchedIn (hc : h.Covered target seen seen₁) {levels : Nat} {r : StructRef}
    (hr : SearchedIn seen levels r) : SearchedIn seen₁ levels r := by
  obtain ⟨level, hmem, hle⟩ := hr
  exact ⟨level, hc.kept _ hmem, hle⟩

theorem Covered.trans (h₁ : h.Covered target seen seen₁) (h₂ : h.Covered target seen₁ seen₂) :
    h.Covered target seen seen₂ where
  kept p hp := h₂.kept p (h₁.kept p hp)
  missed p hp hnew := by
    by_cases hmid : p ∈ seen₁
    · exact h₁.missed p hmid hnew
    · exact h₂.missed p hp hmid
  closed r below hr hnew s hlink := by
    by_cases hmid : (r, below + 1) ∈ seen₁
    · exact h₂.searchedIn (h₁.closed r below hmid hnew s hlink)
    · exact h₂.closed r below hr hmid s hlink
  positive p hp hnew := by
    by_cases hmid : p ∈ seen₁
    · exact h₁.positive p hmid hnew
    · exact h₂.positive p hp hmid

/-- The structs among values are covered if each of them is. -/
theorem covered_searchValues {searchStruct : StructRef → Searched → Nesting} {levels : Nat}
    (hsearch : ∀ r seen seen', searchStruct r seen = .clear seen' →
      h.Covered target seen seen' ∧ SearchedIn seen' levels r)
    (values : List Value) {seen seen' : Searched}
    (hclear : searchValues searchStruct values seen = .clear seen') :
    h.Covered target seen seen' ∧ ∀ r, .struct r ∈ values → SearchedIn seen' levels r := by
  induction values generalizing seen with
  | nil =>
    cases hclear
    exact ⟨.refl h target _, fun r hr => absurd hr List.not_mem_nil⟩
  | cons v rest ih =>
    cases v with
    | struct r =>
      simp only [searchValues] at hclear
      split at hclear
      · next seen₁ hfirst =>
        obtain ⟨hcovered, hr⟩ := hsearch r seen seen₁ hfirst
        obtain ⟨hcovered', hrest⟩ := ih hclear
        refine ⟨hcovered.trans hcovered', ?_⟩
        intro s hs
        rcases List.mem_cons.mp hs with heq | hs
        · cases heq
          exact hcovered'.searchedIn hr
        · exact hrest s hs
      · cases hclear
      · cases hclear
    | _ =>
      -- other values are passed over
      obtain ⟨hcovered, hrest⟩ := ih hclear
      refine ⟨hcovered, ?_⟩
      intro s hs
      rcases List.mem_cons.mp hs with heq | hs
      · cases heq
      · exact hrest s hs

/-- So is a struct with all structs behind it. -/
theorem covered_searchWithin (levels : Nat) (r : StructRef) {seen seen' : Searched}
    (hclear : h.searchWithin target levels r seen = .clear seen') :
    h.Covered target seen seen' ∧ SearchedIn seen' levels r := by
  induction levels generalizing r seen seen' with
  | zero =>
    unfold searchWithin at hclear
    split at hclear
    · cases hclear
    · cases hclear
  | succ below ih =>
    unfold searchWithin at hclear
    split at hclear
    · cases hclear
    · next hne =>
      dsimp only at hclear
      split at hclear
      · next hmet =>
        -- it was searched before
        cases hclear
        obtain ⟨⟨s, level⟩, hmem, hs⟩ := List.any_eq_true.mp hmet
        obtain ⟨heq, hle⟩ := Bool.and_eq_true_iff.mp hs
        have heq : s = r := beq_iff_eq.mp heq
        subst heq
        exact ⟨.refl h target _, level, hmem, of_decide_eq_true hle⟩
      · obtain ⟨hcovered, hvalues⟩ := covered_searchValues (fun r _ _ => ih r) _ hclear
        have hr : (r, below + 1) ∈ seen' := hcovered.kept _ List.mem_cons_self
        refine ⟨⟨?kept, ?missed, ?closed, ?positive⟩, below + 1, hr, Nat.le_refl _⟩
        case kept =>
          intro p hp
          exact hcovered.kept p (List.mem_cons_of_mem _ hp)
        case missed =>
          intro p hp hnew
          by_cases hpr : p = (r, below + 1)
          · rw [hpr]
            exact hne
          · exact hcovered.missed p hp fun hmem => (List.mem_cons.mp hmem).elim hpr hnew
        case closed =>
          intro s level hs hnew u hlink
          by_cases hsr : (s, level + 1) = (r, below + 1)
          · -- the links of the struct itself were all followed
            cases hsr
            obtain ⟨e, he, hu⟩ := hlink
            apply hvalues
            rw [← hu]
            exact List.mem_map_of_mem (List.mem_reverse.mpr he)
          · exact hcovered.closed s level hs
              (fun hmem => (List.mem_cons.mp hmem).elim hsr hnew) u hlink
        case positive =>
          intro p hp hnew
          by_cases hpr : p = (r, below + 1)
          · rw [hpr]
            exact Nat.succ_pos below
          · exact hcovered.positive p hp fun hmem => (List.mem_cons.mp hmem).elim hpr hnew

/-- From a struct that was searched, no chain is longer than the levels that were left. -/
theorem Covered.not_descends (hc : h.Covered target [] seen) (levels : Nat) {r : StructRef}
    (hr : SearchedIn seen levels r) : ¬h.Descends levels r := by
  induction levels generalizing r with
  | zero =>
    obtain ⟨level, hmem, hle⟩ := hr
    have hpos : 0 < level := hc.positive _ hmem List.not_mem_nil
    omega
  | succ below ih =>
    obtain ⟨level, hmem, hle⟩ := hr
    have hpos : 0 < level := hc.positive _ hmem List.not_mem_nil
    obtain ⟨under, rfl⟩ : ∃ n, level = n + 1 := ⟨level - 1, by omega⟩
    rintro ⟨s, hlink, hs⟩
    obtain ⟨level', hmem', hle'⟩ := hc.closed r under hmem List.not_mem_nil s hlink
    exact ih ⟨level', hmem', by omega⟩ hs

/-- If the search finds nothing, then there is no way from the value to the struct. -/
theorem not_reaches_of_nesting {r : StructRef} {seen : Searched}
    (hclear : h.nesting target (.struct r) = .clear seen) : ¬ReflTransGen h.Links r target := by
  obtain ⟨hcovered, hvalues⟩ :=
    covered_searchValues (fun s _ _ => covered_searchWithin (maxNesting - 1) s) _ hclear
  intro hpath
  -- what was covered is closed, so the whole path was
  have hseen : ∀ s, ReflTransGen h.Links r s → ∃ levels, SearchedIn seen levels s := by
    intro s hrs
    induction hrs with
    | refl => exact ⟨_, hvalues r List.mem_cons_self⟩
    | tail _ hlink ih =>
      obtain ⟨levels, level, hmem, -⟩ := ih
      have hpos : 0 < level := hcovered.positive _ hmem List.not_mem_nil
      obtain ⟨under, rfl⟩ : ∃ n, level = n + 1 := ⟨level - 1, by omega⟩
      exact ⟨_, hcovered.closed _ under hmem List.not_mem_nil _ hlink⟩
  obtain ⟨levels, level, hmem, -⟩ := hseen target hpath
  exact hcovered.missed _ hmem List.not_mem_nil rfl

/-- Nor are too many structs nested behind the value. -/
theorem not_nestsBeyond_of_nesting {v : Value} {seen : Searched}
    (hclear : h.nesting target v = .clear seen) : ¬h.NestsBeyond (maxNesting - 1) v := by
  rintro ⟨r, rfl, hr⟩
  obtain ⟨hcovered, hvalues⟩ :=
    covered_searchValues (fun s _ _ => covered_searchWithin (maxNesting - 1) s) _ hclear
  exact hcovered.not_descends _ (hvalues r List.mem_cons_self) hr

/-! ## Section 4: What the search finds -/

/-- A search among values ends at one of them, if it does not cover them all. -/
theorem searchValues_ne_clear {searchStruct : StructRef → Searched → Nesting}
    (values : List Value) {seen : Searched} {found : Nesting}
    (hfound : searchValues searchStruct values seen = found) (hne : ∀ seen', found ≠ .clear seen') :
    ∃ r seen', .struct r ∈ values ∧ searchStruct r seen' = found := by
  induction values generalizing seen with
  | nil => exact absurd hfound.symm (hne seen)
  | cons v rest ih =>
    cases v with
    | struct r =>
      simp only [searchValues] at hfound
      split at hfound
      · obtain ⟨s, seen', hs, heq⟩ := ih hfound
        exact ⟨s, seen', List.mem_cons_of_mem _ hs, heq⟩
      · next heq => exact ⟨r, seen, List.mem_cons_self, heq.trans hfound⟩
      · next heq => exact ⟨r, seen, List.mem_cons_self, heq.trans hfound⟩
    | _ =>
      obtain ⟨s, seen', hs, heq⟩ := ih hfound
      exact ⟨s, seen', List.mem_cons_of_mem _ hs, heq⟩

/-- A struct is refused for what it is, or for a struct that it links to. -/
theorem searchWithin_ne_clear {below : Nat} {r : StructRef} {seen : Searched} {found : Nesting}
    (hfound : h.searchWithin target (below + 1) r seen = found)
    (hne : ∀ seen', found ≠ .clear seen') :
    (r = target ∧ found = .cyclic) ∨
      ∃ s seen', h.Links r s ∧ h.searchWithin target below s seen' = found := by
  unfold searchWithin at hfound
  split at hfound
  · next heq => exact .inl ⟨heq, hfound.symm⟩
  · dsimp only at hfound
    split at hfound
    · exact absurd hfound.symm (hne seen)
    · obtain ⟨s, seen', hs, heq⟩ := searchValues_ne_clear _ hfound hne
      obtain ⟨e, he, hes⟩ := List.mem_map.mp hs
      exact .inr ⟨s, seen', ⟨e, List.mem_reverse.mp he, hes⟩, heq⟩

theorem descends_of_searchWithin (levels : Nat) {r : StructRef} {seen : Searched}
    (hdeep : h.searchWithin target levels r seen = .tooDeep) : h.Descends levels r := by
  induction levels generalizing r seen with
  | zero => exact trivial
  | succ below ih =>
    rcases searchWithin_ne_clear hdeep (fun _ => Nesting.noConfusion) with ⟨-, heq⟩ | hlinks
    · cases heq
    · obtain ⟨s, seen', hlink, hs⟩ := hlinks
      exact ⟨s, hlink, ih hs⟩

theorem reaches_of_searchWithin (levels : Nat) {r : StructRef} {seen : Searched}
    (hcyclic : h.searchWithin target levels r seen = .cyclic) :
    ReflTransGen h.Links r target := by
  induction levels generalizing r seen with
  | zero =>
    unfold searchWithin at hcyclic
    split at hcyclic
    · next heq =>
      rw [heq]
    · cases hcyclic
  | succ below ih =>
    rcases searchWithin_ne_clear hcyclic (fun _ => Nesting.noConfusion) with ⟨heq, -⟩ | hlinks
    · rw [heq]
    · obtain ⟨s, seen', hlink, hs⟩ := hlinks
      exact .head hlink (ih hs)

/-- A value is refused as too deep only if too many structs are nested behind it. -/
theorem nestsBeyond_of_nesting {v : Value} (hdeep : h.nesting target v = .tooDeep) :
    h.NestsBeyond (maxNesting - 1) v := by
  obtain ⟨r, seen, hr, heq⟩ := searchValues_ne_clear _ hdeep (fun _ => Nesting.noConfusion)
  exact ⟨r, (List.mem_singleton.mp hr).symm, descends_of_searchWithin _ heq⟩

/-- A value is refused as cyclic only if there is a way from it to the struct. -/
theorem reaches_of_nesting {v : Value} (hcyclic : h.nesting target v = .cyclic) :
    ∃ r, v = .struct r ∧ ReflTransGen h.Links r target := by
  obtain ⟨r, seen, hr, heq⟩ := searchValues_ne_clear _ hcyclic (fun _ => Nesting.noConfusion)
  exact ⟨r, (List.mem_singleton.mp hr).symm, reaches_of_searchWithin _ heq⟩

/-- What is neither at fault is accepted. -/
theorem nesting_of_shallow {v : Value} (hshallow : ¬h.NestsBeyond (maxNesting - 1) v)
    (hapart : ∀ r, v = .struct r → ¬ReflTransGen h.Links r target) :
    ∃ seen, h.nesting target v = .clear seen := by
  cases hnesting : h.nesting target v with
  | clear seen => exact ⟨seen, rfl⟩
  | cyclic =>
    obtain ⟨r, hr, hpath⟩ := reaches_of_nesting hnesting
    exact absurd hpath (hapart r hr)
  | tooDeep => exact absurd (nestsBeyond_of_nesting hnesting) hshallow

end ContractVM.Heap
