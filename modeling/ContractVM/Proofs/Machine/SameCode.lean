import ContractVM.Proofs.Machine.Simulation

/-! # Execution is determined by code

    A script consists of code, a table of methods and debug information.  A run from the start
    of the entry script reads nothing but code: scripts with the same code, and so with the
    same digest, stand for each other wherever a run enters them.

    The tables of methods are not read by instructions, but a context that has methods is
    entered only if there are registers for its dispatcher.  With `dispatcherRegisters` or
    more the check passes for every context. -/

namespace ContractVM

/-! ## Section 1: Contexts with the same code -/

/-- Counterparts have the same code, too. -/
structure Context.Interchangeable (K : Context → Context → Prop) : Prop
    extends Context.Pairing K where
  code : ∀ {c c'}, K c c' → c.code = c'.code

/-- Contexts with the same identity, name and code are interchangeable. -/
theorem Context.interchangeable_twins :
    Context.Interchangeable fun c c' => c.id = c'.id ∧ c.name = c'.name ∧ c.code = c'.code where
  name h := h.2.1
  same h h' := by
    unfold Context.same
    rw [h.1, h'.1]
  code h := h.2.2

/-- Two places are at the same offset of counterparts. -/
def InStep (K : Context → Context → Prop) (p p' : Context × Nat) : Prop :=
  K p.1 p'.1 ∧ p.2 = p'.2

variable {K : Context → Context → Prop}

theorem Context.Interchangeable.simulation (hK : Context.Interchangeable K) {config : Config}
    (hregisters : dispatcherRegisters ≤ config.registers) : Simulation config K (InStep K) where
  pairing := hK.toPairing
  check := by
    intro c c' _
    rw [Machine.checkContext_of_le c hregisters, Machine.checkContext_of_le c' hregisters]
  enter hc := ⟨hc, rfl⟩
  context hp := hp.1
  reads hp := .of_code (hK.code hp.1) hp.2 fun _ => ⟨hp.1, rfl⟩

/-! ## Section 2: Runs -/

/-- **Execution is determined by code.** Let two machines with the same limits, at least
    `dispatcherRegisters` registers and the same stack not run, and let their entry scripts
    and the contexts in their registries and heaps be counterparts: of the same name and the
    same code, and one context on one side if they are on the other.  Let their host functions
    do the same as long as they see the same but for counterparts; they may remember earlier
    calls.  Tables of methods and debug information are arbitrary.

    Then the runs from the start of the entry scripts make the same steps: whatever state one
    of them comes by, the other comes by one that matches, with all frames at the same offsets
    of counterparts.  Either both go on for ever, or they end after the same number of steps
    with the same result, stack, registers and depth, in counterparts; and the sites of faults
    differ at most in the line. -/
theorem execution_determined_by_code {Ω : Type} [HostData Ω] {K : Context → Context → Prop}
    (hK : Context.Interchangeable K) {env env' : Env Ω}
    (hregisters : dispatcherRegisters ≤ env.config.registers) (henv : env.Matches K env')
    {m m' : Machine Ω} (hidle : m.status ≠ .running) (hidle' : m'.status ≠ .running)
    (hstack : m.stack = m'.stack) (hheap : m.heap.MatchesBy K m'.heap) :
    (∀ tables tables', List.Forall₂ (InteropTable.Matches K) tables tables' →
      ∀ m₁, Machine.StaysAbove 0 (m.start env 0) (tables.map env.withInterops) m₁ →
        ∃ m₁', Machine.StaysAbove 0 (m'.start env' 0) (tables'.map env'.withInterops) m₁' ∧
          m₁.Matches K (InStep K) m₁') ∧
    (∀ hosts hosts' : Nat → InteropTable Ω, (∀ n, (hosts n).Matches K (hosts' n)) → ∀ fuel,
      Option.Rel (Machine.EndsMatch K FaultSite.SamePlace) (m.runFromWith env hosts fuel none)
        (m'.runFromWith env' hosts' fuel none)) ∧
    ∀ fuel, Option.Rel (Machine.EndsMatch K FaultSite.SamePlace) (m.execute env fuel)
      (m'.execute env' fuel) := by
  have hsim := hK.simulation hregisters
  have hplace : InStep K (env.entry, 0) (env'.entry, 0) := ⟨henv.entry, rfl⟩
  have hruns : ∀ hosts hosts' : Nat → InteropTable Ω, (∀ n, (hosts n).Matches K (hosts' n)) →
      ∀ fuel, Option.Rel (Machine.EndsMatch K FaultSite.SamePlace)
        (m.runFromWith env hosts fuel none) (m'.runFromWith env' hosts' fuel none) := by
    intro hosts hosts' hhosts fuel
    refine Machine.runFromWith_alike hsim henv hhosts (fun _ => ⟨rfl, rfl⟩) ?_ hidle hidle' hstack
      hheap rfl rfl (Nat.zero_le _) (Nat.zero_le _) hplace ?_ fuel
    · intro p p' hp hoffset _
      exact ⟨hK.name hp.1, hoffset⟩
    · intro f hf
      rw [Machine.checkContext_of_le _ hregisters] at hf
      cases hf
  refine ⟨?steps, hruns, ?fixed⟩
  case steps =>
    intro tables tables' htables m₁ hstays
    exact hstays.alongside hsim henv htables (Machine.matches_start henv hstack hheap hplace)
  case fixed =>
    intro fuel
    have hsame := hruns _ _ (fun _ => henv.interops) fuel
    rwa [Machine.runFromWith_same, Machine.runFromWith_same] at hsame

/-- A script enters another one, which faults: without methods and lines, and with both. -/
theorem switch_to_same_code :
    let code : List (Instr UInt32) :=
      [⟨.load, (0, .string "lib", ())⟩, ⟨.ctx, (0, 1, ())⟩, ⟨.switch, (1, ())⟩]
    let main : Script := .ofCode (code.flatMap Instr.encode).toArray
    let lib : Script := .ofCode (Instr.encode ⟨.throw, (0, ())⟩).toArray
    let methods : List NamedOffset := [("start", 0)]
    let env : Env Empty := ⟨{}, ⟨1, "main", main⟩, ⟨[⟨0, "lib", lib⟩]⟩, .empty⟩
    let env' : Env Empty := ⟨{}, ⟨1, "main", { main with methods }⟩,
      ⟨[⟨0, "lib", { lib with methods, debug := some ⟨[], [(0, 7)]⟩ }⟩]⟩, .empty⟩
    let m : Machine Empty := .initial env.config env.entry .empty
    let m' : Machine Empty := .initial env'.config env'.entry .empty
    ∃ o o', m.execute env 5 = some o ∧ m'.execute env' 5 = some o' ∧ o.1 = o'.1 ∧
      o.2.stack = o'.2.stack ∧ o.2.faultSite = some ⟨"lib", 0, none⟩ ∧
      o'.2.faultSite = some ⟨"lib", 0, some 7⟩ := by
  intro code main lib methods env env' m m'
  have henv :
      env.Matches (fun c c' => c.id = c'.id ∧ c.name = c'.name ∧ c.code = c'.code) env' := by
    refine ⟨rfl, ⟨rfl, rfl, rfl⟩, ⟨rfl, ?_⟩, fun _ => .none⟩
    intro name
    show Option.Rel _ (List.find? _ [_]) (List.find? _ [_])
    rw [List.find?_singleton, List.find?_singleton]
    split
    · exact .some ⟨rfl, rfl, rfl⟩
    · exact .none
  have hidle : m.status ≠ .running := by decide
  have hidle' : m'.status ≠ .running := by decide
  obtain ⟨-, -, hruns⟩ := execution_determined_by_code Context.interchangeable_twins
    (by decide : dispatcherRegisters ≤ env.config.registers) henv hidle hidle' rfl
    (.refl (fun _ => ⟨rfl, rfl, rfl⟩) .empty)
  have hsite : (m.execute env 5).map (fun o => o.2.faultSite) = some (some ⟨"lib", 0, none⟩) := by
    decide +kernel
  have hsite' : (m'.execute env' 5).map (fun o => o.2.faultSite) =
      some (some ⟨"lib", 0, some 7⟩) := by
    decide +kernel
  obtain ⟨o, hrun, ho⟩ := Option.map_eq_some_iff.mp hsite
  obtain ⟨o', hrun', ho'⟩ := Option.map_eq_some_iff.mp hsite'
  have hends := hruns 5
  rw [hrun, hrun'] at hends
  cases hends with
  | some h => exact ⟨o, o', hrun, hrun', h.result, h.stack, ho, ho'⟩

end ContractVM
