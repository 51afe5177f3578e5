import ContractVM.Machine.Run
import Mathlib.Data.List.Forall2

/-! # Rows of steps

    A run is a row of steps without fault, and at its end a machine that no longer runs, or one
    more step that faults:

    * **Rows**: `StaysAbove` is a row in which each step has an environment of its own.  A host
      function that remembers earlier calls is another one at the next call.
    * **Runs** with a table of host functions for each step end behind rows, and in no other way:
      what is proved of rows by induction holds of runs.
    * **One environment**: states that are reached, a number of steps, and the runs of a machine
      are rows, too, with the same environment at every step. -/

namespace ContractVM

/-- The values of a sequence before the `n`-th one, the last of them first. -/
def upTo {α : Type} (f : Nat → α) : Nat → List α
  | 0 => []
  | n + 1 => f n :: upTo f n

theorem forall_upTo {α : Type} {P : α → Prop} {f : Nat → α} (h : ∀ k, P (f k)) (n : Nat) :
    ∀ a ∈ upTo f n, P a := by
  induction n with
  | zero => exact fun a ha => absurd ha List.not_mem_nil
  | succ n ih => exact List.forall_mem_cons.mpr ⟨h n, ih⟩

theorem forall₂_upTo {α β : Type} {R : α → β → Prop} {f : Nat → α} {g : Nat → β}
    (h : ∀ k, R (f k) (g k)) (n : Nat) : List.Forall₂ R (upTo f n) (upTo g n) := by
  induction n with
  | zero => exact .nil
  | succ n ih => exact .cons (h n) ih

variable {Ω : Type}

/-- The environment with other host functions. -/
def Env.withInterops (env : Env Ω) (t : InteropTable Ω) : Env Ω :=
  { env with interops := t }

/-- With one table for all steps, the environments of a row are the same. -/
theorem Env.map_upTo_same (env : Env Ω) (n : Nat) :
    (upTo (fun _ => env.interops) n).map env.withInterops = List.replicate n env := by
  induction n with
  | zero => rfl
  | succ n ih => exact congrArg (List.cons env) ih

namespace Machine

variable [HostData Ω] {env : Env Ω} {m m' : Machine Ω}

/-! ## Section 1: Rows -/

/-- Steps without fault, during which at least `k` frames wait.  Each step has an
    environment of its own, the last one first: a host function that remembers earlier
    calls is another one at the next call. -/
inductive StaysAbove (k : Nat) (m : Machine Ω) : List (Env Ω) → Machine Ω → Prop where
  | refl : StaysAbove k m [] m
  | tail {envs : List (Env Ω)} {env : Env Ω} {m₁ m₂ : Machine Ω}
    (hstays : StaysAbove k m envs m₁) (hrun : m₁.status = .running)
    (hstep : m₁.step env = (.ok (), m₂)) (habove : k ≤ m₂.callers.length) :
    StaysAbove k m (env :: envs) m₂

theorem StaysAbove.le {k : Nat} {envs : List (Env Ω)} (h : StaysAbove k m envs m')
    (hm : k ≤ m.callers.length) : k ≤ m'.callers.length := by
  cases h with
  | refl => exact hm
  | tail _ _ _ habove => exact habove

/-! ## Section 2: Runs with host functions that may remember -/

/-- Steps until the machine no longer runs, at most `fuel` times, each with host functions of
    its own. -/
def stepsWith (env : Env Ω) (hosts : Nat → InteropTable Ω) :
    Nat → Machine Ω → Option (Outcome Ω Unit)
  | 0, _ => none
  | fuel + 1, m =>
    if m.status = .running then
      match step (env.withInterops (hosts 0)) m with
      | (.ok (), m) => stepsWith env (fun n => hosts (n + 1)) fuel m
      | (.error f, m) => some (.error f, m)
    else some (.ok (), m)

/-- A run of the entry script whose host functions may remember earlier calls. -/
def runFromWith (env : Env Ω) (hosts : Nat → InteropTable Ω) (fuel : Nat)
    (method : Option String) (m : Machine Ω) : Option (Outcome Ω Unit) :=
  match m.requestRun env method with
  | (.error f, m) => some (.error f, m)
  | (.ok (), m) =>
    match m.checkStart env with
    | .error f => some (finish (.error f, m))
    | .ok () => (stepsWith env hosts fuel m).map finish

/-- The end of a run that comes behind a row of `n` steps. -/
inductive EndsAfter (env : Env Ω) (hosts : Nat → InteropTable Ω) (m : Machine Ω) (n : Nat) :
    Outcome Ω Unit → Prop where
  /-- The machine no longer runs. -/
  | halts {m' : Machine Ω} (hrow : StaysAbove 0 m ((upTo hosts n).map env.withInterops) m')
    (hhalt : m'.status ≠ .running) : EndsAfter env hosts m n (.ok (), m')
  /-- The next step faults. -/
  | faults {m₁ m' : Machine Ω} {f : Fault}
    (hrow : StaysAbove 0 m ((upTo hosts n).map env.withInterops) m₁) (hrun : m₁.status = .running)
    (hstep : m₁.step (env.withInterops (hosts n)) = (.error f, m')) :
    EndsAfter env hosts m n (.error f, m')

/-- Either there is a row of `n` steps, or the run has ended before. -/
theorem row_or_endsAfter (env : Env Ω) (hosts : Nat → InteropTable Ω) (m : Machine Ω) (n : Nat) :
    (∃ m', StaysAbove 0 m ((upTo hosts n).map env.withInterops) m') ∨
      ∃ k < n, ∃ o, EndsAfter env hosts m k o := by
  induction n with
  | zero => exact .inl ⟨m, .refl⟩
  | succ n ih =>
    rcases ih with ⟨m', hrow⟩ | ⟨k, hk, hends⟩
    · by_cases hrun : m'.status = .running
      · cases hstep : m'.step (env.withInterops (hosts n)) with
        | mk r m₁ =>
          cases r with
          | ok _ => exact .inl ⟨m₁, hrow.tail hrun hstep (Nat.zero_le _)⟩
          | error f => exact .inr ⟨n, Nat.lt_succ_self n, _, .faults hrow hrun hstep⟩
      · exact .inr ⟨n, Nat.lt_succ_self n, _, .halts hrow hrun⟩
    · exact .inr ⟨k, Nat.lt_succ_of_lt hk, hends⟩

/-- A run goes on behind a row of its steps. -/
theorem stepsWith_of_row {hosts : Nat → InteropTable Ω} {n : Nat}
    (hrow : StaysAbove 0 m ((upTo hosts n).map env.withInterops) m') (fuel : Nat) :
    stepsWith env hosts (n + fuel) m = stepsWith env (fun k => hosts (k + n)) fuel m' := by
  induction n generalizing m' fuel with
  | zero =>
    cases hrow
    rw [Nat.zero_add]
    rfl
  | succ n ih =>
    cases hrow with
    | @tail _ _ m₁ _ hrow hrun hstep _ =>
      have hhosts : ∀ k, hosts (k + (n + 1)) = hosts (k + 1 + n) := fun k =>
        congrArg hosts (by omega)
      rw [Nat.add_assoc, ih hrow, Nat.add_comm 1 fuel, stepsWith, if_pos hrun, Nat.zero_add, hstep]
      simp only [hhosts]

theorem EndsAfter.stepsWith_eq {hosts : Nat → InteropTable Ω} {n fuel : Nat} {o : Outcome Ω Unit}
    (h : EndsAfter env hosts m n o) (hn : n < fuel) : stepsWith env hosts fuel m = some o := by
  obtain ⟨rest, rfl⟩ : ∃ k, fuel = n + (k + 1) := ⟨fuel - n - 1, by omega⟩
  cases h with
  | halts hrow hhalt => rw [stepsWith_of_row hrow, stepsWith, if_neg hhalt]
  | faults hrow hrun hstep =>
    rw [stepsWith_of_row hrow, stepsWith, if_pos hrun, Nat.zero_add, hstep]

/-- Runs end behind rows of their steps, and in no other way. -/
theorem stepsWith_eq_some_iff {hosts : Nat → InteropTable Ω} {fuel : Nat} {o : Outcome Ω Unit} :
    stepsWith env hosts fuel m = some o ↔ ∃ n < fuel, EndsAfter env hosts m n o := by
  constructor
  · intro h
    rcases row_or_endsAfter env hosts m fuel with ⟨m', hrow⟩ | ⟨n, hn, o', hends⟩
    · have hnone : stepsWith env hosts (fuel + 0) m = none := stepsWith_of_row hrow 0
      rw [Nat.add_zero, h] at hnone
      cases hnone
    · rw [hends.stepsWith_eq hn] at h
      cases h
      exact ⟨n, hn, hends⟩
  · rintro ⟨n, hn, hends⟩
    exact hends.stepsWith_eq hn

/-- A run that has not ended has taken all of its steps. -/
theorem stepsWith_eq_none_iff {hosts : Nat → InteropTable Ω} {fuel : Nat} :
    stepsWith env hosts fuel m = none ↔
      ∃ m', StaysAbove 0 m ((upTo hosts fuel).map env.withInterops) m' := by
  constructor
  · intro h
    rcases row_or_endsAfter env hosts m fuel with hrow | ⟨n, hn, o, hends⟩
    · exact hrow
    · rw [hends.stepsWith_eq hn] at h
      cases h
  · rintro ⟨m', hrow⟩
    exact stepsWith_of_row hrow 0

/-! ## Section 3: Runs in one environment -/

theorem stepsWith_same (env : Env Ω) (fuel : Nat) (m : Machine Ω) :
    stepsWith env (fun _ => env.interops) fuel m = steps env fuel m := by
  induction fuel generalizing m with
  | zero => rfl
  | succ fuel ih =>
    have henv : env.withInterops env.interops = env := rfl
    unfold stepsWith steps
    rw [henv]
    split
    · obtain ⟨r, m₁⟩ := step env m
      cases r with
      | ok _ => exact ih m₁
      | error f => rfl
    · rfl

/-- Functions that do not remember give the runs of the machine. -/
theorem runFromWith_same (env : Env Ω) (fuel : Nat) (method : Option String) (m : Machine Ω) :
    m.runFromWith env (fun _ => env.interops) fuel method = m.runFrom env fuel method := by
  unfold runFromWith runFrom run
  obtain ⟨r, m₁⟩ := m.requestRun env method
  cases r with
  | error f => rfl
  | ok _ =>
    dsimp only
    cases m₁.checkStart env with
    | error f => rfl
    | ok _ => exact congrArg (Option.map finish) (stepsWith_same env fuel m₁)

theorem steps_eq_some_iff {fuel : Nat} {o : Outcome Ω Unit} :
    steps env fuel m = some o ↔ ∃ n < fuel, EndsAfter env (fun _ => env.interops) m n o := by
  rw [← stepsWith_same]
  exact stepsWith_eq_some_iff

/-- The outcome of `n` steps.  A machine that no longer runs stays as it is, and a fault is the
    last step. -/
def advance (env : Env Ω) : Nat → Machine Ω → Outcome Ω Unit
  | 0, m => (.ok (), m)
  | n + 1, m =>
    if m.status = .running then
      match m.step env with
      | (.ok (), m') => advance env n m'
      | (.error f, m') => (.error f, m')
    else (.ok (), m)

/-- Behind a row, the rest of the steps is taken. -/
theorem advance_of_row {n : Nat} (hrow : StaysAbove 0 m (List.replicate n env) m') (k : Nat) :
    m.advance env (n + k) = m'.advance env k := by
  induction n generalizing m' k with
  | zero =>
    cases hrow
    rw [Nat.zero_add]
  | succ n ih =>
    cases hrow with
    | tail hrow hrun hstep _ =>
      rw [Nat.add_assoc, ih hrow, Nat.add_comm 1 k, advance, if_pos hrun, hstep]

/-- The steps beyond the end of a run change nothing. -/
theorem EndsAfter.advance_eq {n k : Nat} {o : Outcome Ω Unit}
    (h : EndsAfter env (fun _ => env.interops) m n o) (hn : n < k) : m.advance env k = o := by
  obtain ⟨rest, rfl⟩ : ∃ j, k = n + (j + 1) := ⟨k - n - 1, by omega⟩
  cases h with
  | halts hrow hhalt =>
    rw [env.map_upTo_same] at hrow
    rw [advance_of_row hrow, advance, if_neg hhalt]
  | faults hrow hrun hstep =>
    rw [env.map_upTo_same] at hrow
    have hstep' : step env _ = _ := hstep
    rw [advance_of_row hrow, advance, if_pos hrun, hstep']

/-- A machine reaches another one if it gets there by steps without fault. -/
inductive Reaches (env : Env Ω) (m : Machine Ω) : Machine Ω → Prop where
  | refl : Reaches env m m
  | tail {m₁ m₂ : Machine Ω} (hreach : Reaches env m m₁) (hrun : m₁.status = .running)
      (hstep : m₁.step env = (.ok (), m₂)) : Reaches env m m₂

/-- What is reached stands at the end of a row. -/
theorem reaches_iff :
    Reaches env m m' ↔ ∃ n, StaysAbove 0 m (List.replicate n env) m' := by
  constructor
  · intro h
    induction h with
    | refl => exact ⟨0, .refl⟩
    | tail _ hrun hstep ih =>
      obtain ⟨n, hrow⟩ := ih
      exact ⟨n + 1, hrow.tail hrun hstep (Nat.zero_le _)⟩
  · rintro ⟨n, hrow⟩
    induction n generalizing m' with
    | zero =>
      cases hrow
      exact .refl
    | succ n ih =>
      cases hrow with
      | tail hrow hrun hstep _ => exact (ih hrow).tail hrun hstep

theorem Reaches.single (hrun : m.status = .running) (hstep : m.step env = (.ok (), m')) :
    Reaches env m m' :=
  .tail .refl hrun hstep

theorem Reaches.trans {m₁ m₂ : Machine Ω} (h : Reaches env m m₁) (h' : Reaches env m₁ m₂) :
    Reaches env m m₂ := by
  induction h' with
  | refl => exact h
  | tail _ hrun hstep ih => exact .tail ih hrun hstep

/-- A run ends in a state that its machine reaches, or with the fault of a step from such
    a state. -/
theorem reaches_of_steps {fuel : Nat} {r : Except Fault Unit}
    (h : steps env fuel m = some (r, m')) :
    match r with
    | .ok () => Reaches env m m' ∧ m'.status ≠ .running
    | .error f => ∃ m₁, Reaches env m m₁ ∧ m₁.status = .running ∧ m₁.step env = (.error f, m') := by
  obtain ⟨n, -, hends⟩ := steps_eq_some_iff.mp h
  have hreaches : ∀ {m₁ : Machine Ω},
      StaysAbove 0 m ((upTo (fun _ => env.interops) n).map env.withInterops) m₁ →
        Reaches env m m₁ := by
    intro m₁ hrow
    rw [env.map_upTo_same] at hrow
    exact reaches_iff.mpr ⟨n, hrow⟩
  cases hends with
  | halts hrow hhalt => exact ⟨hreaches hrow, hhalt⟩
  | faults hrow hrun hstep => exact ⟨_, hreaches hrow, hrun, hstep⟩

end Machine

end ContractVM
