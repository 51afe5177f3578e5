import ContractVM.Command.Execute
import ContractVM.Proofs.Machine.Site
import ContractVM.Proofs.Machine.Steps

/-! # The life of a machine

    A machine runs, or it has halted, or it has faulted.  This is known to its host and to
    the host functions alike, and each of them can rely on it:

    * **The status follows the runs**, along every session: it is `running` while a run is in
      progress, and tells afterwards how the last run has ended.
    * **Requests in the middle of a run** are refused and change nothing.  So a host function
      that asks for a run, and goes on when it is refused, can be replaced by one that does
      not ask.
    * **Ends of runs**: `Ends` lists how a run can come to its end, whatever the host
      functions do. -/

namespace ContractVM

variable {Ω α : Type}

/-! ## Section 1: What becomes of a machine -/

namespace Machine

/-- The machine does what it did, and has faulted where it had. -/
structure SameStatus (m m' : Machine Ω) : Prop where
  status : m'.status = m.status
  faultSite : m'.faultSite = m.faultSite

/-- The run of a machine goes on, or it has halted with no frame left to return to. -/
structure GoesOn (m m' : Machine Ω) : Prop where
  faultSite : m'.faultSite = m.faultSite
  status : m'.status = m.status ∨ m'.status = .halt ∧ m'.callers = []

variable {m m' : Machine Ω}

theorem SameStatus.goesOn (h : SameStatus m m') : GoesOn m m' :=
  ⟨h.faultSite, .inl h.status⟩

theorem sameStatus_of_surroundings (h : m'.surroundings = m.surroundings) : SameStatus m m' where
  status := congrArg Surroundings.status h
  faultSite := congrArg Surroundings.faultSite h

/-- A frame is left for the one that waits, or for good. -/
theorem goesOn_leave (m : Machine Ω) : GoesOn m m.leave := by
  unfold leave
  split
  · next hnone => exact ⟨rfl, .inr ⟨rfl, hnone⟩⟩
  · dsimp only
    split
    · exact ⟨rfl, .inl rfl⟩
    · exact ⟨rfl, .inl rfl⟩

theorem Enters.goesOn {config : Config} {o : Outcome Ω Unit} (h : Enters config m o) :
    GoesOn m o.2 := by
  cases h with
  | entered _ _ journal => exact ⟨rfl, .inl rfl⟩
  | refused f journal => exact ⟨rfl, .inl rfl⟩

theorem Fetches.sameStatus {o : Outcome Ω (Instr UInt32)} (h : Fetches m o) :
    SameStatus m o.2 := by
  cases h with
  | read _ journal => exact ⟨rfl, rfl⟩
  | misread _ journal => exact ⟨rfl, rfl⟩

theorem sameStatus_noteCall (env : Env Ω) (name : String) (m : Machine Ω) :
    SameStatus m (m.noteCall env name) := by
  obtain ⟨journal, hnote⟩ := m.noteCall_eq env name
  rw [hnote]
  exact ⟨rfl, rfl⟩

variable [HostData Ω]

/-- An instruction that calls no host function lets the run go on, or returns from its last
    frame. -/
theorem goesOn_exec (env : Env Ω) (m : Machine Ω) {i : Instr UInt32}
    (hplain : ∀ target, i ≠ ⟨.extCall, (target, ())⟩) : GoesOn m (m.exec env i).2 := by
  cases exec_reach env i with
  | confined hi => exact (sameStatus_of_surroundings (hi.surroundings_eq m)).goesOn
  | calls target hi =>
    subst hi
    exact (m.enters_callTarget env.config target).goesOn
  | returns hi =>
    subst hi
    exact m.goesOn_leave
  | switches handle hi =>
    subst hi
    exact (m.enters_switchContext env.config _ handle).goesOn
  | callsHost target hi => exact absurd hi (hplain target)

end Machine

/-- The action asks for no run. -/
def HostAction.Plain (action : HostAction Ω) : Prop :=
  ∀ method, action ≠ .requestRun method

variable [HostData Ω]

/-- Only a request that is granted changes what a machine does. -/
theorem Machine.sameStatus_perform (env : Env Ω) {m : Machine Ω} {action : HostAction Ω}
    (h : m.status = .running ∨ action.Plain) : SameStatus m (m.perform env action).2 := by
  cases action with
  | push v =>
    have hpush : Confined env.config fun m : Machine Ω => m.push env.config v := confined_push v
    exact sameStatus_of_surroundings (hpush.surroundings_eq m)
  | pop =>
    have hpop : Confined env.config fun m : Machine Ω => m.pop HostProgram.instruction :=
      confined_pop HostProgram.instruction
    exact sameStatus_of_surroundings (hpop.surroundings_eq m)
  | clearStack => exact ⟨rfl, rfl⟩
  | requestRun method =>
    rcases h with hrun | hplain
    · show SameStatus m (m.requestRun env method).2
      rw [requestRun_of_running hrun]
      exact ⟨rfl, rfl⟩
    · exact absurd rfl (hplain method)
  | newStruct => exact ⟨rfl, rfl⟩
  | put container key value instruction => exact ⟨rfl, rfl⟩
  | insert r key value => exact ⟨rfl, rfl⟩
  | deepCopy v instruction =>
    unfold perform
    dsimp only
    split
    · exact ⟨rfl, rfl⟩
    · exact ⟨rfl, rfl⟩
  | cast v t instruction =>
    unfold perform
    dsimp only
    split
    · exact ⟨rfl, rfl⟩
    · exact ⟨rfl, rfl⟩
  | newObject x => exact ⟨rfl, rfl⟩
  | setObject r x => exact ⟨rfl, rfl⟩
  | note level text => exact ⟨rfl, rfl⟩

/-! ## Section 2: The status along a session -/

namespace Session

/-- The status agrees with the phase.  Between two runs it tells how the last one ended, and
    during a run there is no fault site. -/
def Orderly (s : Session Ω) : Prop :=
  match s.phase with
  | .idle => s.machine.status = .halt ∧ s.machine.faultSite = none ∨ s.machine.status = .fault
  | .running => (s.machine.status = .running ∨ s.machine.status = .halt) ∧
      s.machine.faultSite = none
  | .calling _ => s.machine.status = .running ∧ s.machine.faultSite = none

variable {env : Env Ω} {may : HostAction Ω → Prop}

omit [HostData Ω] in
/-- A part of a run is orderly if its machine goes on. -/
theorem orderly_after {m : Machine Ω} {o : Outcome Ω Unit} (hrun : m.status = .running)
    (hsite : m.faultSite = none) (h : Machine.GoesOn m o.2) : (after o).Orderly := by
  obtain ⟨r, m'⟩ := o
  cases r with
  | error f => exact .inr rfl
  | ok _ =>
    refine ⟨?_, h.faultSite.trans hsite⟩
    rcases h.status with hstatus | ⟨hhalt, -⟩
    · exact .inl (hstatus.trans hrun)
    · exact .inr hhalt

omit [HostData Ω] in
theorem orderly_of_fault (f : Fault) (m : Machine Ω) : (after (.error f, m)).Orderly :=
  .inr rfl

/-- No step of a session gets the status out of order. -/
theorem Next.orderly {s s' : Session Ω} (hnext : Next env may s s') (h : s.Orderly) :
    s'.Orderly := by
  cases hnext with
  | @acts m action _ hplain =>
    have hsame := Machine.sameStatus_perform env (m := m) (.inr hplain)
    unfold Orderly at h ⊢
    dsimp only at h ⊢
    rw [hsame.status, hsame.faultSite]
    exact h
  | @refused m m' method f hrequest =>
    have hrequests := m.requests env method
    rw [hrequest] at hrequests
    cases hrequests with
    | nested _ => exact h
    | unknown _ _ _ _ => exact .inr rfl
  | @begins m m' method hrequest =>
    have hrequests := m.requests env method
    rw [hrequest] at hrequests
    cases hrequests with
    | starts _ _ => exact orderly_after rfl rfl ⟨rfl, .inl rfl⟩
  | stops _ =>
    obtain ⟨-, hsite⟩ := h
    exact .inl ⟨rfl, hsite⟩
  | @leaves m hrun _ =>
    obtain ⟨-, hsite⟩ := h
    exact orderly_after (o := (.ok (), m.leave)) hrun hsite m.goesOn_leave
  | misreads _ _ _ => exact orderly_of_fault _ _
  | @executes m m' i hrun _ hfetch hplain =>
    obtain ⟨-, hsite⟩ := h
    have hsame := (Machine.fetches env { m with offset := m.frame.ip }).sameStatus
    rw [hfetch] at hsame
    exact orderly_after (hsame.status.trans hrun) (hsame.faultSite.trans hsite)
      (m'.goesOn_exec env hplain)
  | misses _ _ _ _ => exact orderly_of_fault _ _
  | @calls m m' target name program hrun _ hfetch _ =>
    obtain ⟨-, hsite⟩ := h
    have hsame := (Machine.fetches env { m with offset := m.frame.ip }).sameStatus
    rw [hfetch] at hsame
    have hnote := m'.sameStatus_noteCall env name
    exact ⟨hnote.status.trans (hsame.status.trans hrun),
      hnote.faultSite.trans (hsame.faultSite.trans hsite)⟩
  | @performs m name action _ =>
    obtain ⟨hrun, hsite⟩ := h
    have hsame : Machine.SameStatus m (m.perform env action).2 :=
      Machine.sameStatus_perform env (.inl hrun)
    exact ⟨hsame.status.trans hrun, hsame.faultSite.trans hsite⟩
  | replies verdict =>
    obtain ⟨hrun, hsite⟩ := h
    cases verdict with
    | resume => exact ⟨.inl hrun, hsite⟩
    | halt => exact ⟨.inr rfl, hsite⟩
    | fault => exact orderly_of_fault _ _
  | fails f => exact orderly_of_fault _ _

/-- So the status is in order along every session of a new machine. -/
theorem Reaches.orderly {s : Session Ω} {heap : Heap Ω}
    (h : Reaches env may ⟨Machine.initial env.config env.entry heap, .idle⟩ s) : s.Orderly :=
  h.invariant (fun _ _ hnext => hnext.orderly) (.inl ⟨rfl, rfl⟩)

theorem Runs.orderly {s s' : Session Ω} {sites : List (Context × Nat)}
    (h : Runs env may s sites s') (hs : s.Orderly) : s'.Orderly :=
  h.reaches.invariant (fun _ _ hnext => hnext.orderly) hs

/-! ## Section 3: Runs without requests -/

/-- A host function that asks for a run leads nowhere else than one that does not. -/
theorem Runs.withoutRequests {s s' : Session Ω} {sites : List (Context × Nat)}
    (h : Runs env may s sites s') (hs : s.Orderly) :
    Runs env HostAction.Plain s sites s' := by
  induction h with
  | refl => exact .refl
  | @tail sites s₁ s₂ hruns hbusy hnext ih =>
    have horderly := hruns.orderly hs
    cases hnext with
    | acts _ _ => exact absurd rfl hbusy
    | refused _ => exact absurd rfl hbusy
    | begins _ => exact absurd rfl hbusy
    | stops hrun => exact ih.tail hbusy (.stops hrun)
    | leaves hrun hend => exact ih.tail hbusy (.leaves hrun hend)
    | misreads hrun hend hfetch => exact ih.tail hbusy (.misreads hrun hend hfetch)
    | executes hrun hend hfetch hplain => exact ih.tail hbusy (.executes hrun hend hfetch hplain)
    | misses hrun hend hfetch hcallee => exact ih.tail hbusy (.misses hrun hend hfetch hcallee)
    | calls hrun hend hfetch hcallee => exact ih.tail hbusy (.calls hrun hend hfetch hcallee)
    | @performs m name action _ =>
      by_cases hplain : action.Plain
      · exact ih.tail hbusy (.performs hplain)
      · -- the request is refused, and the session stays where it is
        obtain ⟨method, hnot⟩ := Classical.not_forall.mp hplain
        obtain rfl := Classical.not_not.mp hnot
        have hstays : (m.perform env (.requestRun method)).2 = m := by
          show (m.requestRun env method).2 = m
          rw [Machine.requestRun_of_running horderly.1]
        rw [hstays, fetchSites_of_calling, List.append_nil]
        exact ih
    | replies verdict => exact ih.tail hbusy (.replies verdict)
    | fails f => exact ih.tail hbusy (.fails f)

end Session

/-- The program with every request for a run replaced by the answer that it is refused. -/
def HostProgram.withoutRuns : HostProgram Ω α → HostProgram Ω α
  | .reply a => .reply a
  | .fail f => .fail f
  | .look next => .look fun view => (next view).withoutRuns
  | .act (.requestRun _) next => (next (.error .nestedRun)).withoutRuns
  | .act action next => .act action fun answer => (next answer).withoutRuns

def InteropTable.withoutRuns (t : InteropTable Ω) : InteropTable Ω :=
  ⟨t.bindings.map fun binding => (binding.1, binding.2.withoutRuns)⟩

/-- The environment whose host functions ask for no run. -/
def Env.withoutRuns (env : Env Ω) : Env Ω :=
  { env with interops := env.interops.withoutRuns }

omit [HostData Ω] in
theorem InteropTable.find?_withoutRuns (t : InteropTable Ω) (name : String) :
    t.withoutRuns.find? name = (t.find? name).map HostProgram.withoutRuns := by
  obtain ⟨bindings⟩ := t
  show List.lookup name (bindings.map _) = (List.lookup name bindings).map _
  induction bindings with
  | nil => rfl
  | cons binding bindings ih =>
    rw [List.map_cons, List.lookup_cons, List.lookup_cons, ih]
    split
    · rfl
    · rfl

/-- A program whose requests are refused does the same without them. -/
theorem HostProgram.run_withoutRuns (env : Env Ω) (p : HostProgram Ω α) {m : Machine Ω}
    (hrun : m.status = .running) : p.withoutRuns.run env.withoutRuns m = p.run env m := by
  induction p generalizing m with
  | reply a => rfl
  | fail f => rfl
  | look next ih => exact ih (m.view env) hrun
  | act action next ih =>
    have hstatus : (m.perform env action).2.status = .running :=
      (Machine.perform_staysPut env hrun action).status.trans hrun
    cases action with
    | requestRun method =>
      have hrefused : m.perform env (.requestRun method) = (.error .nestedRun, m) := by
        show Machine.answer (m.requestRun env method) = _
        rw [Machine.requestRun_of_running hrun]
        rfl
      show (next (.error .nestedRun)).withoutRuns.run env.withoutRuns m =
        (next (m.perform env (.requestRun method)).1).run env (m.perform env (.requestRun method)).2
      rw [hrefused]
      exact ih (.error .nestedRun) hrun
    | _ => exact ih _ hstatus

namespace Machine

omit [HostData Ω] in
/-- `EXTCALL` finds the same host function, but for its requests. -/
theorem callee_withoutRuns (env : Env Ω) (m : Machine Ω) (target : Target) :
    m.callee env.withoutRuns target =
      (m.callee env target).map fun found => (found.1, found.2.withoutRuns) := by
  unfold callee
  cases m.hostName target with
  | error f => rfl
  | ok name =>
    have hfind : env.withoutRuns.interops.find? name =
        (env.interops.find? name).map HostProgram.withoutRuns :=
      env.interops.find?_withoutRuns name
    dsimp only
    rw [hfind]
    cases env.interops.find? name with
    | none => rfl
    | some program => rfl

theorem exec_withoutRuns (env : Env Ω) {m : Machine Ω} (hrun : m.status = .running)
    (i : Instr UInt32) : m.exec env.withoutRuns i = m.exec env i := by
  obtain ⟨op, args⟩ := i
  cases op with
  | extCall =>
    obtain ⟨target, ⟨⟩⟩ := args
    rw [exec_extCall, exec_extCall, callee_withoutRuns]
    cases m.callee env target with
    | error f => rfl
    | ok found =>
      obtain ⟨name, program⟩ := found
      have hnote : (m.noteCall env name).status = .running :=
        (sameStatus_noteCall env name m).status.trans hrun
      have hprogram := program.run_withoutRuns env hnote
      dsimp only [Except.map]
      -- the note of the call is the same, too
      have hsame : m.noteCall env.withoutRuns name = m.noteCall env name := rfl
      rw [hsame, hprogram]
  | _ => rfl

theorem step_withoutRuns (env : Env Ω) {m : Machine Ω} (hrun : m.status = .running) :
    m.step env.withoutRuns = m.step env := by
  cases hend : m.frame.atEnd with
  | true => rw [m.step_of_atEnd (of_decide_eq_true hend), m.step_of_atEnd (of_decide_eq_true hend)]
  | false =>
    have hfetches := fetches env { m with offset := m.frame.ip }
    cases hfetch : fetch env { m with offset := m.frame.ip } with
    | mk r m' =>
      have hfetch' : fetch env.withoutRuns { m with offset := m.frame.ip } = (r, m') := hfetch
      rw [hfetch] at hfetches
      cases r with
      | error f => rw [step_of_fetch_error hend hfetch', step_of_fetch_error hend hfetch]
      | ok i =>
        rw [step_of_fetch hend hfetch', step_of_fetch hend hfetch]
        exact exec_withoutRuns env (hfetches.status_eq.trans hrun) i

theorem steps_withoutRuns (env : Env Ω) (fuel : Nat) (m : Machine Ω) :
    steps env.withoutRuns fuel m = steps env fuel m := by
  induction fuel generalizing m with
  | zero => rfl
  | succ fuel ih =>
    rw [steps, steps]
    by_cases hrun : m.status = .running
    · rw [if_pos hrun, if_pos hrun, step_withoutRuns env hrun]
      split
      · exact ih _
      · rfl
    · rw [if_neg hrun, if_neg hrun]

theorem runFrom_withoutRuns (env : Env Ω) (fuel : Nat) (method : Option String) (m : Machine Ω) :
    m.runFrom env.withoutRuns fuel method = m.runFrom env fuel method := by
  have hrequest : m.requestRun env.withoutRuns method = m.requestRun env method := rfl
  unfold runFrom
  rw [hrequest]
  split
  · rfl
  · next m' _ =>
    have hcheck : m'.checkStart env.withoutRuns = m'.checkStart env := rfl
    unfold run
    rw [hcheck, steps_withoutRuns]

end Machine

/-! ## Section 4: Ends of runs -/

namespace Session

variable (env : Env Ω) (may : HostAction Ω → Prop)

/-- How a run from a machine at its start may end, with its result. -/
inductive Ends (start : Machine Ω) : Outcome Ω Unit → Prop where
  /-- It may not begin. -/
  | barred {f : Fault} (hcheck : start.checkStart env = .error f) :
    Ends start (Machine.finish (.error f, start))
  /-- The machine has halted. -/
  | halts {sites : List (Context × Nat)} {m : Machine Ω} (hcheck : start.checkStart env = .ok ())
    (hruns : Runs env may ⟨start, .running⟩ sites ⟨m, .running⟩) (hstop : m.status ≠ .running) :
    Ends start (Machine.finish (.ok (), m))
  /-- A part of the run has faulted. -/
  | faults {sites : List (Context × Nat)} {f : Fault} {m : Machine Ω}
    (hcheck : start.checkStart env = .ok ())
    (hruns : Runs env may ⟨start, .running⟩ sites (after (.error f, m))) :
    Ends start (Machine.finish (.error f, m))

variable {env may}

/-- The status tells the result of a run. -/
theorem Ends.status {start : Machine Ω} {o : Outcome Ω Unit} (hrun : start.status = .running)
    (hsite : start.faultSite = none) (h : Ends env may start o) :
    match o.1 with
    | .ok () => o.2.status = .halt ∧ o.2.faultSite = none
    | .error _ => o.2.status = .fault ∧ o.2.faultSite = some o.2.site := by
  cases h with
  | barred _ => exact ⟨rfl, rfl⟩
  | halts _ hruns _ =>
    obtain ⟨-, hsite'⟩ := hruns.orderly ⟨.inl hrun, hsite⟩
    exact ⟨rfl, hsite'⟩
  | faults _ _ => exact ⟨rfl, rfl⟩

variable (hinterops : ∀ name program, env.interops.find? name = some program →
  program.KeepsTo may)

include hinterops

/-- A run that returns ends in one of these ways. -/
theorem ends_of_run {fuel : Nat} {start : Machine Ω} {o : Outcome Ω Unit}
    (h : start.run env fuel = some o) : Ends env may start o := by
  unfold Machine.run at h
  split at h
  · next f hcheck =>
    cases h
    exact .barred hcheck
  · next hcheck =>
    obtain ⟨⟨r, m⟩, hsteps, rfl⟩ := Option.map_eq_some_iff.mp h
    have hreaches := Machine.reaches_of_steps hsteps
    cases r with
    | ok _ =>
      obtain ⟨hreach, hstop⟩ := hreaches
      obtain ⟨sites, hruns⟩ := runs_of_reaches hinterops hreach
      exact .halts hcheck hruns hstop
    | error f =>
      obtain ⟨m₁, hreach, hrun, hstep⟩ := hreaches
      obtain ⟨sites, hruns⟩ := runs_of_reaches hinterops hreach
      obtain ⟨sites', hlast⟩ := runs_of_step hinterops hrun
      rw [hstep] at hlast
      exact .faults hcheck (hruns.trans hlast)

omit hinterops in
/-- So do the runs that the host asks for. -/
theorem ends_of_runFrom {m : Machine Ω} (hidle : m.status ≠ .running) {method : Option String}
    {entry : Nat} (hentry : env.entryOffset? method = some entry) {fuel : Nat} {o : Outcome Ω Unit}
    (h : m.runFrom env fuel method = some o) :
    Ends env (fun _ => True) (m.start env entry) o := by
  have hinterops : ∀ name program, env.interops.find? name = some program →
      program.KeepsTo fun _ => True :=
    fun _ program _ => program.keepsTo_of_forall fun _ => trivial
  unfold Machine.runFrom at h
  rw [Machine.requestRun_of_entry hidle hentry] at h
  exact ends_of_run hinterops h

end Session

/-- **The status follows the runs.** Take any session of a new machine: its host acts on it
    between the runs and asks for runs, and the host functions act as they like, each time
    anew, and may ask for runs themselves.

    The machine is `running` exactly while a run is in progress; once it has halted in a run,
    nothing comes but the end of the run.  A host function that asks for a run is refused, and
    the machine is unchanged; so every run goes on as one in which nobody asks, and host
    programs can be replaced by such that never do.

    Between two runs the host can ask for any entry.  However the run ends, with a result the
    machine has halted and there is no fault site; with a fault it has faulted, and the site
    is where it stands.  A method that there is not is a fault without a site, and the machine
    stays as it was otherwise. -/
theorem status_follows_runs {Ω : Type} [HostData Ω] (env : Env Ω) (heap : Heap Ω)
    {s : Session Ω} (hreach : Session.Reaches env (fun _ => True)
      ⟨Machine.initial env.config env.entry heap, .idle⟩ s) :
    (s.machine.status = .running → s.phase ≠ .idle) ∧
    (s.phase ≠ .idle → s.machine.status = .running ∨
      s.phase = .running ∧
        ∀ s', Session.Next env (fun _ => True) s s' → s' = ⟨s.machine, .idle⟩) ∧
    (∀ name, s.phase = .calling name → ∀ method,
      s.machine.perform env (.requestRun method) = (.error .nestedRun, s.machine)) ∧
    (∀ fuel method,
      s.machine.runFrom env fuel method = s.machine.runFrom env.withoutRuns fuel method) ∧
    (s.phase = .idle →
      (∀ method entry, env.entryOffset? method = some entry →
        let start := s.machine.start env entry
        s.machine.requestRun env method = (.ok (), start) ∧
        (∀ sites s', Session.Runs env (fun _ => True) ⟨start, .running⟩ sites s' →
          Session.Runs env HostAction.Plain ⟨start, .running⟩ sites s') ∧
        (∀ r m, Session.Ends env (fun _ => True) start (r, m) →
          match r with
          | .ok () => m.status = .halt ∧ m.faultSite = none
          | .error _ => m.status = .fault ∧ m.faultSite = some m.site) ∧
        ∀ fuel o, s.machine.runFrom env fuel method = some o →
          Session.Ends env (fun _ => True) start o) ∧
      ∀ name, env.entryOffset? (some name) = none → ∀ fuel, ∃ journal,
        s.machine.runFrom env fuel (some name) = some (.error (.unknownLabel name),
          { s.machine with status := .fault, faultSite := none, journal })) := by
  have horderly := hreach.orderly
  obtain ⟨m, phase⟩ := s
  have hidle : phase = .idle → m.status ≠ .running := by
    rintro rfl hrun
    have hends : m.status = .halt ∧ m.faultSite = none ∨ m.status = .fault := horderly
    rw [hrun] at hends
    simp at hends
  refine ⟨fun hrun hphase => hidle hphase hrun, ?busy, ?nested, ?requests, ?outermost⟩
  case busy =>
    intro hbusy
    cases phase with
    | idle => exact absurd rfl hbusy
    | calling name => exact .inl horderly.1
    | running =>
      obtain ⟨hrun | hhalt, hsite⟩ := horderly
      · exact .inl hrun
      · refine .inr ⟨rfl, ?_⟩
        have hstop : m.status ≠ .running := by
          rw [show m.status = .halt from hhalt]
          exact Status.noConfusion
        have hself : (Machine.finish (.ok (), m)).2 = m := by
          show ({ m with status := .halt } : Machine Ω) = m
          rw [← show m.status = .halt from hhalt]
        intro s' hnext
        -- all other steps are those of a running machine
        cases hnext with
        | stops _ => rw [hself]
        | leaves hrun _ => exact absurd hrun hstop
        | misreads hrun _ _ => exact absurd hrun hstop
        | executes hrun _ _ _ => exact absurd hrun hstop
        | misses hrun _ _ _ => exact absurd hrun hstop
        | calls hrun _ _ _ => exact absurd hrun hstop
  case nested =>
    intro name hphase method
    obtain rfl : phase = .calling name := hphase
    show Machine.answer (m.requestRun env method) = _
    rw [Machine.requestRun_of_running horderly.1]
    rfl
  case requests =>
    intro fuel method
    exact (m.runFrom_withoutRuns env fuel method).symm
  case outermost =>
    intro hphase
    constructor
    · intro method entry hentry start
      refine ⟨Machine.requestRun_of_entry (hidle hphase) hentry, ?_, ?_, ?_⟩
      · intro sites s' hruns
        exact hruns.withoutRequests ⟨.inl rfl, rfl⟩
      · intro r m' hends
        exact hends.status rfl rfl
      · intro fuel o hrun
        exact Session.ends_of_runFrom (hidle hphase) hentry hrun
    · intro name hentry fuel
      exact Machine.runFrom_of_unknown (hidle hphase) hentry fuel

/-- A host function that asks for a run, and goes on when it is refused. -/
theorem swallowed_request_changes_nothing :
    let code := (⟨.extCall, (.named "Try", ())⟩ : Instr UInt32).encode.toArray
    let c : Context := ⟨0, "main", .ofCode code⟩
    let program : HostProgram Empty Verdict := .act (.requestRun none) fun _ => .reply .resume
    let env : Env Empty := ⟨{}, c, .empty, ⟨[("Try", program)]⟩⟩
    let m : Machine Empty := Machine.initial env.config c .empty
    ∃ m₁ m₂,
      Session.Reaches env (fun _ => True) ⟨m, .idle⟩ ⟨m₁, .calling "Try"⟩ ∧
      m₁.perform env (.requestRun none) = (.error .nestedRun, m₁) ∧
      m.runFrom env 3 none = some (.ok (), m₂) ∧ m₂.status = .halt ∧ m₂.faultSite = none := by
  intro code c program env m
  have hfits : (⟨.extCall, (.named "Try", ())⟩ : Instr UInt32).Fits :=
    ⟨(by decide : "Try".utf8ByteSize < UInt64.size), trivial⟩
  have hcode : code.toList = [] ++ Instr.encode ⟨.extCall, (.named "Try", ())⟩ ++ [] :=
    (List.append_nil _).symm
  have hfetch := Machine.fetch_of_stands env { m.start env 0 with offset := 0 } _ hfits hcode rfl
  have hcallee : ∀ m : Machine Empty, m.callee env (.named "Try") = .ok ("Try", program) :=
    fun _ => rfl
  have hrequest : m.requestRun env none = (.ok (), m.start env 0) := rfl
  have hbegin : Session.Next env (fun _ => True) ⟨m, .idle⟩ ⟨m.start env 0, .running⟩ :=
    .begins hrequest
  have hreach := hbegin.reaches.tail (.calls rfl rfl hfetch (hcallee _))
  obtain ⟨-, -, hnested, -⟩ := status_follows_runs env .empty hreach
  obtain ⟨-, -, -, -, hidle⟩ := status_follows_runs env .empty (s := ⟨m, .idle⟩) .refl
  obtain ⟨-, -, hends, hruns⟩ := (hidle rfl).1 none 0 rfl
  have hresult : (m.runFrom env 3 none).map (fun o => o.1.toOption) = some (some ()) := by
    decide +kernel
  obtain ⟨⟨r, m₂⟩, hrun, hok⟩ := Option.map_eq_some_iff.mp hresult
  cases r with
  | error f => cases hok
  | ok _ => exact ⟨_, m₂, hreach, hnested _ rfl none, hrun, hends _ _ (hruns 3 _ hrun)⟩

end ContractVM
