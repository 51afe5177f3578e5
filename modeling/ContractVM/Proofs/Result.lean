import ContractVM.Codec.Decoder

/-! # Results of computations that may fail

    A computation of several parts has a result if each part has one, and fails as the
    first part that fails.  Two computations agree if they fail alike, or have results that
    are related.  A lookup in a table without double keys finds what the table holds. -/

namespace ContractVM

variable {ε α β : Type}

/-- A computation of two parts yields a value if both do. -/
theorem Except.bind_eq_ok {x : Except ε α} {f : α → Except ε β} {b : β} :
    (x >>= f) = .ok b ↔ ∃ a, x = .ok a ∧ f a = .ok b := by
  cases x with
  | error e => simp [bind, Except.bind]
  | ok a => simp [bind, Except.bind]

/-- A computation of two parts fails if one of them does. -/
theorem Except.bind_eq_error {x : Except ε α} {f : α → Except ε β} {e : ε} :
    (x >>= f) = .error e ↔ x = .error e ∨ ∃ a, x = .ok a ∧ f a = .error e := by
  cases x with
  | error e => simp [bind, Except.bind]
  | ok a => simp [bind, Except.bind]

/-- A mapped result comes from a result, and a failure from the same failure. -/
theorem Except.map_eq_ok {x : Except ε α} {f : α → β} {b : β} :
    x.map f = .ok b ↔ ∃ a, x = .ok a ∧ f a = b := by
  cases x with
  | error e => simp [Except.map]
  | ok a => simp [Except.map]

theorem Except.map_eq_error {x : Except ε α} {f : α → β} {e : ε} :
    x.map f = .error e ↔ x = .error e := by
  cases x with
  | error e => simp [Except.map]
  | ok a => simp [Except.map]

/-- Two results agree: both are the same failure, or values that are related. -/
inductive Except.Rel (R : α → β → Prop) : Except ε α → Except ε β → Prop where
  | ok {a : α} {b : β} (h : R a b) : Rel R (.ok a) (.ok b)
  | error (e : ε) : Rel R (.error e) (.error e)

/-- Computations of two parts agree if their parts do. -/
theorem Except.Rel.bind {γ δ : Type} {R : α → β → Prop} {S : γ → δ → Prop} {x : Except ε α}
    {y : Except ε β} {f : α → Except ε γ} {g : β → Except ε δ} (h : Except.Rel R x y)
    (hnext : ∀ a b, R a b → Except.Rel S (f a) (g b)) : Except.Rel S (x >>= f) (y >>= g) := by
  cases h with
  | ok hab => exact hnext _ _ hab
  | error e => exact .error e

section Lookup

variable {κ : Type} [BEq κ] [LawfulBEq κ] {table : List (κ × α)} {k : κ} {a : α}

theorem mem_of_lookup (h : table.lookup k = some a) : (k, a) ∈ table := by
  obtain ⟨front, back, heq, -⟩ := List.lookup_eq_some_iff.mp h
  rw [heq]
  exact List.mem_append_right _ List.mem_cons_self

theorem not_mem_of_lookup (h : table.lookup k = none) (a : α) : (k, a) ∉ table := by
  intro hmem
  have hne := List.lookup_eq_none_iff.mp h (k, a) hmem
  rw [bne_self_eq_false] at hne
  cases hne

theorem lookup_of_mem (hnd : (table.map Prod.fst).Nodup) (hmem : (k, a) ∈ table) :
    table.lookup k = some a := by
  induction table with
  | nil => cases hmem
  | cons e table ih =>
    obtain ⟨hnew, hrest⟩ := List.nodup_cons.mp hnd
    rcases List.mem_cons.mp hmem with rfl | hmem
    · exact List.lookup_cons_self
    · have hne : k ≠ e.1 := by
        rintro rfl
        exact hnew (List.mem_map.mpr ⟨(e.1, a), hmem, rfl⟩)
      rw [List.lookup_cons, beq_false_of_ne hne]
      exact ih hrest hmem

end Lookup

end ContractVM
