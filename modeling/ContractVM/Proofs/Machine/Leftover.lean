import ContractVM.Proofs.Machine.Lifecycle

/-! # Frames that are left over

    When a run is over, no frame should wait any longer.  There are four ways to its end:

    * **A fault** takes away all frames, wherever it happened.
    * **A return** from the last frame, by `RET` or at the end of the code, leaves none.
    * **A host function that halts the machine** stops the run where it is called.  The frames
      that wait there are left over, until the next run begins.
    * **A method that there is not** begins no run, so what was left over stays. -/

namespace ContractVM

variable {Ω : Type}

/-- A machine with one frame has none that waits. -/
theorem Machine.depth_eq_one {m : Machine Ω} : m.depth = 1 ↔ m.callers = [] := by
  unfold Machine.depth
  rw [← List.length_eq_zero_iff]
  omega

variable [HostData Ω] {env : Env Ω} {may : HostAction Ω → Prop}

namespace Session

/-! ## Section 1: The last step of a run -/

/-- A host function has halted the machine, which stays as the function left it. -/
def HaltedByHost (env : Env Ω) (may : HostAction Ω → Prop) (start m : Machine Ω) : Prop :=
  ∃ sites name m₁, Runs env may ⟨start, .running⟩ sites ⟨m₁, .calling name⟩ ∧
    m = { m₁ with status := .halt }

/-- A machine that halts has returned from its last frame, unless a host function halted it. -/
theorem Next.halts {start m : Machine Ω} (hstart : Orderly ⟨start, .running⟩)
    {sites : List (Context × Nat)} {s : Session Ω}
    (hruns : Runs env may ⟨start, .running⟩ sites s) (hbusy : s.phase ≠ .idle)
    (hnext : Next env may s ⟨m, .running⟩) (hstop : m.status ≠ .running) :
    m.callers = [] ∨ HaltedByHost env may start m := by
  -- an ordinary part of a run halts in its last frame only
  have hreturned : ∀ {m₁ : Machine Ω} {o : Outcome Ω Unit}, m₁.status = .running →
      Machine.GoesOn m₁ o.2 → after o = ⟨m, .running⟩ → m.callers = [] := by
    rintro m₁ ⟨r, m₂⟩ hrun hgoes hafter
    cases r with
    | error f => cases hafter
    | ok _ =>
      cases hafter
      rcases hgoes.status with hstatus | ⟨-, hnone⟩
      · exact absurd (hstatus.trans hrun) hstop
      · exact hnone
  generalize hs : (⟨m, .running⟩ : Session Ω) = s' at hnext
  cases hnext with
  | acts _ _ => exact absurd rfl hbusy
  | refused _ => exact absurd rfl hbusy
  | begins _ => exact absurd rfl hbusy
  | stops _ => cases hs
  | @leaves m₁ hrun _ =>
    exact .inl (hreturned (o := (.ok (), m₁.leave)) hrun m₁.goesOn_leave hs.symm)
  | misreads _ _ _ => cases hs
  | @executes m₁ m₂ i hrun _ hfetch hplain =>
    have hfetches := Machine.fetches env { m₁ with offset := m₁.frame.ip }
    rw [hfetch] at hfetches
    have hrun₂ : m₂.status = .running := hfetches.status_eq.trans hrun
    exact .inl (hreturned hrun₂ (m₂.goesOn_exec env hplain) hs.symm)
  | misses _ _ _ _ => cases hs
  | calls _ _ _ _ => cases hs
  | performs _ => cases hs
  | @replies m₁ name verdict =>
    cases verdict with
    | resume =>
      -- the machine runs while a host function is called
      cases hs
      exact absurd (hruns.orderly hstart).1 hstop
    | halt =>
      cases hs
      exact .inr ⟨sites, name, m₁, hruns, rfl⟩
    | fault => cases hs
  | fails _ => cases hs

/-! ## Section 2: What is left when a run is over -/

/-- A run that faulted leaves no frame over. -/
theorem Ends.depth_of_fault {start m : Machine Ω} {f : Fault}
    (h : Ends env may start (.error f, m)) : m.depth = 1 := by
  generalize ho : ((.error f, m) : Outcome Ω Unit) = o at h
  cases h with
  | barred _ =>
    cases ho
    rfl
  | halts _ _ _ => cases ho
  | faults _ _ =>
    cases ho
    rfl

/-- A run with a result leaves no frame over, unless a host function has halted it. -/
theorem Ends.depth_of_result {start m : Machine Ω} (hstart : Orderly ⟨start, .running⟩)
    (hrun : start.status = .running) (h : Ends env may start (.ok (), m)) :
    m.depth = 1 ∨ HaltedByHost env may start m := by
  generalize ho : ((.ok (), m) : Outcome Ω Unit) = o at h
  cases h with
  | barred _ => cases ho
  | faults _ _ => cases ho
  | @halts sites m₁ _ hruns hstop =>
    cases ho
    generalize hs : (⟨m₁, .running⟩ : Session Ω) = s at hruns
    cases hruns with
    | refl =>
      cases hs
      exact absurd hrun hstop
    | tail hruns hbusy hnext =>
      subst hs
      rcases hnext.halts hstart hruns hbusy hstop with hnone | ⟨sites, name, m₂, hruns, rfl⟩
      · exact .inl (Machine.depth_eq_one.mpr hnone)
      · exact .inr ⟨sites, name, m₂, hruns, rfl⟩

/-- Wherever a host function is called, it can end the run. -/
theorem Runs.ends_of_calling {start m : Machine Ω} {sites : List (Context × Nat)} {name : String}
    (hcheck : start.checkStart env = .ok ())
    (hruns : Runs env may ⟨start, .running⟩ sites ⟨m, .calling name⟩) :
    Ends env may start (.ok (), { m with status := .halt }) :=
  .halts (m := { m with status := .halt }) hcheck
    (hruns.tail Phase.noConfusion (.replies .halt)) Status.noConfusion

end Session

/-- **Frames are left over by host functions only.** Let a machine that does not run be asked
    for a run, whatever the scripts, the contexts, the host functions and the limits are.

    A run that faults leaves one frame, the one in which it faulted.  A run with a result
    leaves one frame, too, or it was halted by a host function; the machine is then as the
    function left it, with all frames that waited when it was called.  Each call of a host
    function can end so, at any depth.  A method that there is not begins no run, and the
    frames stay as they were. -/
theorem frames_left_over_by_hosts_only {Ω : Type} [HostData Ω] (env : Env Ω) {m : Machine Ω}
    (hidle : m.status ≠ .running) (method : Option String) :
    (∀ entry, env.entryOffset? method = some entry →
      let start := m.start env entry
      start.depth = 1 ∧
      (∀ fuel o, m.runFrom env fuel method = some o →
        Session.Ends env (fun _ => True) start o) ∧
      (∀ f m', Session.Ends env (fun _ => True) start (.error f, m') → m'.depth = 1) ∧
      (∀ m', Session.Ends env (fun _ => True) start (.ok (), m') →
        m'.depth = 1 ∨ Session.HaltedByHost env (fun _ => True) start m') ∧
      (start.checkStart env = .ok () → ∀ m', Session.HaltedByHost env (fun _ => True) start m' →
        Session.Ends env (fun _ => True) start (.ok (), m'))) ∧
    (env.entryOffset? method = none → ∀ fuel, ∃ f m',
      m.runFrom env fuel method = some (.error f, m') ∧ m'.callers = m.callers) := by
  constructor
  · intro entry hentry start
    have horderly : Session.Orderly ⟨start, .running⟩ := ⟨.inl rfl, rfl⟩
    refine ⟨rfl, ?runs, ?fault, ?result, ?halted⟩
    case runs =>
      intro fuel o hrun
      exact Session.ends_of_runFrom hidle hentry hrun
    case fault =>
      intro f m' hends
      exact hends.depth_of_fault
    case result =>
      intro m' hends
      exact hends.depth_of_result horderly rfl
    case halted =>
      rintro hcheck m' ⟨sites, name, m₁, hruns, rfl⟩
      exact hruns.ends_of_calling hcheck
  · intro hentry fuel
    cases method with
    | none => cases hentry
    | some name =>
      obtain ⟨journal, hrun⟩ := Machine.runFrom_of_unknown hidle hentry fuel
      exact ⟨_, _, hrun, rfl⟩

/-- A fault in a frame that was called. -/
theorem fault_in_called_frame_leaves_none :
    let code := ((⟨.call, (5, ())⟩ : Instr UInt32).encode ++ [0xff]).toArray
    let c : Context := ⟨0, "main", .ofCode code⟩
    let env : Env Empty := ⟨{}, c, .empty, .empty⟩
    let m : Machine Empty := Machine.initial env.config c .empty
    ∃ f m', m.runFrom env 2 none = some (.error f, m') ∧ m'.depth = 1 := by
  intro code c env m
  have hidle : m.status ≠ .running := by decide
  obtain ⟨-, hruns, hfault, -⟩ := (frames_left_over_by_hosts_only env hidle none).1 0 rfl
  have hresult : (m.runFrom env 2 none).map (fun o => o.1.toOption) = some none := by
    decide +kernel
  obtain ⟨⟨r, m'⟩, hrun, hr⟩ := Option.map_eq_some_iff.mp hresult
  cases r with
  | ok _ => cases hr
  | error f => exact ⟨f, m', hrun, hfault f m' (hruns 2 _ hrun)⟩

/-- A host function that halts the machine in a frame that was called. -/
theorem halting_host_leaves_a_frame_over :
    let code := ((⟨.call, (6, ())⟩ : Instr UInt32).encode ++ (⟨.ret, ()⟩ : Instr UInt32).encode ++
      (⟨.extCall, (.named "Stop", ())⟩ : Instr UInt32).encode).toArray
    let c : Context := ⟨0, "main", .ofCode code⟩
    let env : Env Empty := ⟨{}, c, .empty, ⟨[("Stop", .reply .halt)]⟩⟩
    let m : Machine Empty := Machine.initial env.config c .empty
    ∃ m', m.runFrom env 3 none = some (.ok (), m') ∧ m'.depth = 2 := by
  intro code c env m
  have hresult : (m.runFrom env 3 none).map (fun o => (o.1.toOption, o.2.depth)) =
      some (some (), 2) := by
    decide +kernel
  obtain ⟨⟨r, m'⟩, hrun, heq⟩ := Option.map_eq_some_iff.mp hresult
  obtain ⟨hr, hdepth⟩ := Prod.mk.inj heq
  cases r with
  | error f => cases hr
  | ok _ => exact ⟨m', hrun, hdepth⟩

end ContractVM
