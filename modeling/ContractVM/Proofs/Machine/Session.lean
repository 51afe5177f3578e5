import ContractVM.Proofs.Machine.Interop
import ContractVM.Proofs.Machine.Rows

/-! # Sessions

    A session is the whole life of a machine: what its host does with it between two runs,
    the steps of the runs, and what host functions do with it in the middle of a step.

    * **Host functions are not programs here.**  While one is called, it may take any action
      at any time, and end as it likes.  So a session also covers functions that remember
      earlier calls, and those that never end.
    * **Policies** say which actions the host may take, between runs and in host functions.
    * **Runs are sessions**: `reaches_of_runFrom` finds every run among the sessions, if the
      host programs keep to the policy. -/

namespace ContractVM

variable {Ω α : Type}

/-! ## Section 1: Phases -/

/-- Who is at work on a machine. -/
inductive Phase where
  /-- The host, between two runs. -/
  | idle
  /-- The machine itself, between two steps of a run. -/
  | running
  /-- A host function, in the middle of a step. -/
  | calling (name : String)
  deriving DecidableEq, Repr

structure Session (Ω : Type) where
  machine : Machine Ω
  phase : Phase

/-- The session after a part of a run.  A fault ends the run. -/
def Session.after : Outcome Ω Unit → Session Ω
  | (.ok (), m) => ⟨m, .running⟩
  | (.error f, m) => ⟨(Machine.finish (.error f, m)).2, .idle⟩

/-! ## Section 2: Calls of host functions -/

namespace Machine

/-- The name of the host function that `EXTCALL` calls. -/
def hostName (m : Machine Ω) : Target → Except Fault String
  | .named name => .ok name
  | .register index => m.stringIn Opcode.extCall.mnemonic index

/-- The host function that `EXTCALL` calls, with its name. -/
def callee (env : Env Ω) (m : Machine Ω) (target : Target) :
    Except Fault (String × HostProgram Ω Verdict) :=
  match m.hostName target with
  | .error f => .error f
  | .ok name =>
    match env.interops.find? name with
    | none => .error (.unknownInterop name)
    | some program => .ok (name, program)

/-- The machine as the host function finds it. -/
def noteCall (env : Env Ω) (name : String) (m : Machine Ω) : Machine Ω :=
  if env.config.trace then m.note .debug s!"extcall {name}" else m

/-- How the run goes on after a verdict. -/
def obey (name : String) (m : Machine Ω) : Verdict → Outcome Ω Unit
  | .resume => (.ok (), m)
  | .halt => (.ok (), { m with status := .halt })
  | .fault => (.error (.interopFault name "host reported a fault"), m)

/-- A call is noted in the journal, if at all. -/
theorem noteCall_eq (env : Env Ω) (name : String) (m : Machine Ω) :
    ∃ journal, m.noteCall env name = { m with journal } := by
  unfold noteCall
  split
  · exact ⟨_, rfl⟩
  · exact ⟨m.journal, rfl⟩

variable [HostData Ω] {env : Env Ω}

/-- `EXTCALL` finds a host function, runs it and obeys its verdict. -/
theorem exec_extCall (m : Machine Ω) (target : Target) :
    m.exec env ⟨.extCall, (target, ())⟩ =
      match m.callee env target with
      | .error f => (.error f, m)
      | .ok (name, program) =>
        match program.run env (m.noteCall env name) with
        | (.error f, m') => (.error f, m')
        | (.ok verdict, m') => m'.obey name verdict := by
  show m.callHost env Opcode.extCall.mnemonic target = _
  unfold callHost callee
  dsimp only
  change (match m.hostName target with
    | .error f => (.error f, m)
    | .ok name => _ : Outcome Ω Unit) = _
  cases m.hostName target with
  | error f => rfl
  | ok name =>
    dsimp only
    cases env.interops.find? name with
    | none => rfl
    | some program =>
      unfold noteCall
      dsimp only
      split
      · next heq => rw [heq]
      · next heq =>
        rw [heq]
        rfl
      · next heq =>
        rw [heq]
        rfl
      · next heq =>
        rw [heq]
        rfl

end Machine

/-! ## Section 3: Steps of a session -/

namespace Session

variable [HostData Ω] (env : Env Ω) (may : HostAction Ω → Prop)

/-- What can happen next, if the host takes only actions that it may take. -/
inductive Next : Session Ω → Session Ω → Prop where
  /-- The host acts on an idle machine. -/
  | acts {m : Machine Ω} {action : HostAction Ω} (ha : may action)
    (hplain : ∀ method, action ≠ .requestRun method) :
    Next ⟨m, .idle⟩ ⟨(m.perform env action).2, .idle⟩
  /-- The host asks for a run in vain. -/
  | refused {m m' : Machine Ω} {method : Option String} {f : Fault}
    (hrequest : m.requestRun env method = (.error f, m')) : Next ⟨m, .idle⟩ ⟨m', .idle⟩
  /-- The host starts a run, which faults at once if it may not begin. -/
  | begins {m m' : Machine Ω} {method : Option String}
    (hrequest : m.requestRun env method = (.ok (), m')) :
    Next ⟨m, .idle⟩ (after (m'.checkStart env, m'))
  /-- A run ends once the machine has halted. -/
  | stops {m : Machine Ω} (hrun : m.status ≠ .running) :
    Next ⟨m, .running⟩ ⟨(Machine.finish (.ok (), m)).2, .idle⟩
  /-- At the end of its code, a frame is left. -/
  | leaves {m : Machine Ω} (hrun : m.status = .running) (hend : m.frame.atEnd = true) :
    Next ⟨m, .running⟩ ⟨m.leave, .running⟩
  /-- There is no instruction to fetch. -/
  | misreads {m m' : Machine Ω} {f : Fault} (hrun : m.status = .running)
    (hend : m.frame.atEnd = false)
    (hfetch : Machine.fetch env { m with offset := m.frame.ip } = (.error f, m')) :
    Next ⟨m, .running⟩ (after (.error f, m'))
  /-- An instruction is executed that calls no host function. -/
  | executes {m m' : Machine Ω} {i : Instr UInt32} (hrun : m.status = .running)
    (hend : m.frame.atEnd = false)
    (hfetch : Machine.fetch env { m with offset := m.frame.ip } = (.ok i, m'))
    (hplain : ∀ target, i ≠ ⟨.extCall, (target, ())⟩) : Next ⟨m, .running⟩ (after (m'.exec env i))
  /-- An `EXTCALL` finds no host function. -/
  | misses {m m' : Machine Ω} {target : Target} {f : Fault} (hrun : m.status = .running)
    (hend : m.frame.atEnd = false)
    (hfetch : Machine.fetch env { m with offset := m.frame.ip } =
      (.ok ⟨.extCall, (target, ())⟩, m'))
    (hcallee : m'.callee env target = .error f) : Next ⟨m, .running⟩ (after (.error f, m'))
  /-- An `EXTCALL` finds a host function. -/
  | calls {m m' : Machine Ω} {target : Target} {name : String} {program : HostProgram Ω Verdict}
    (hrun : m.status = .running) (hend : m.frame.atEnd = false)
    (hfetch : Machine.fetch env { m with offset := m.frame.ip } =
      (.ok ⟨.extCall, (target, ())⟩, m'))
    (hcallee : m'.callee env target = .ok (name, program)) :
    Next ⟨m, .running⟩ ⟨m'.noteCall env name, .calling name⟩
  /-- A host function acts. -/
  | performs {m : Machine Ω} {name : String} {action : HostAction Ω} (ha : may action) :
    Next ⟨m, .calling name⟩ ⟨(m.perform env action).2, .calling name⟩
  /-- A host function returns a verdict. -/
  | replies {m : Machine Ω} {name : String} (verdict : Verdict) :
    Next ⟨m, .calling name⟩ (after (m.obey name verdict))
  /-- A host function fails. -/
  | fails {m : Machine Ω} {name : String} (f : Fault) :
    Next ⟨m, .calling name⟩ (after (.error f, m))

/-- A session reaches another one if it gets there step by step. -/
inductive Reaches (s : Session Ω) : Session Ω → Prop where
  | refl : Reaches s s
  | tail {s₁ s₂ : Session Ω} (hreach : Reaches s s₁) (hnext : Next env may s₁ s₂) : Reaches s s₂

variable {env may}

theorem Next.reaches {s s' : Session Ω} (h : Next env may s s') : Reaches env may s s' :=
  .tail .refl h

theorem Reaches.trans {s s₁ s₂ : Session Ω} (h : Reaches env may s s₁)
    (h' : Reaches env may s₁ s₂) : Reaches env may s s₂ := by
  induction h' with
  | refl => exact h
  | tail _ hnext ih => exact .tail ih hnext

/-- What every step preserves holds in all sessions that are reached. -/
theorem Reaches.invariant {P : Session Ω → Prop}
    (hstep : ∀ s s', Next env may s s' → P s → P s') {s s' : Session Ω}
    (h : Reaches env may s s') (hs : P s) : P s' := by
  induction h with
  | refl => exact hs
  | tail _ hnext ih => exact hstep _ _ hnext ih

/-- Where a session fetches in its next step: in the current frame of a running machine, unless
    the code ends there. -/
def fetchSites (s : Session Ω) : List (Context × Nat) :=
  if s.phase = .running ∧ s.machine.status = .running ∧ s.machine.frame.atEnd = false then
    [(s.machine.frame.context, s.machine.frame.ip)]
  else []

variable (env may)

/-- One run leads from a session to another one, and fetches at the places of the list on the
    way.  The machine is idle at the end of the run only. -/
inductive Runs (s : Session Ω) : List (Context × Nat) → Session Ω → Prop where
  | refl : Runs s [] s
  | tail {sites : List (Context × Nat)} {s₁ s₂ : Session Ω} (hruns : Runs s sites s₁)
    (hbusy : s₁.phase ≠ .idle) (hnext : Next env may s₁ s₂) : Runs s (sites ++ s₁.fetchSites) s₂

variable {env may}

theorem Next.runs {s s' : Session Ω} (hbusy : s.phase ≠ .idle) (h : Next env may s s') :
    Runs env may s s.fetchSites s' :=
  .tail .refl hbusy h

theorem Runs.trans {s s₁ s₂ : Session Ω} {sites sites' : List (Context × Nat)}
    (h : Runs env may s sites s₁) (h' : Runs env may s₁ sites' s₂) :
    Runs env may s (sites ++ sites') s₂ := by
  induction h' with
  | refl =>
    rw [List.append_nil]
    exact h
  | tail _ hbusy hnext ih =>
    rw [← List.append_assoc]
    exact .tail ih hbusy hnext

theorem Runs.reaches {s s' : Session Ω} {sites : List (Context × Nat)}
    (h : Runs env may s sites s') : Reaches env may s s' := by
  induction h with
  | refl => exact .refl
  | tail _ _ hnext ih => exact .tail ih hnext

end Session

/-! ## Section 4: Runs are sessions -/

/-- Does the program take only actions that it may take? -/
def HostProgram.KeepsTo (may : HostAction Ω → Prop) : HostProgram Ω α → Prop
  | .reply _ => True
  | .fail _ => True
  | .look next => ∀ view, (next view).KeepsTo may
  | .act action next => may action ∧ ∀ answer, (next answer).KeepsTo may

namespace Session

variable [HostData Ω] {env : Env Ω} {may : HostAction Ω → Prop}

/-- The actions of a host program are steps of a run in which it is called. -/
theorem runs_of_program (name : String) (p : HostProgram Ω α) (hp : p.KeepsTo may)
    (m : Machine Ω) :
    ∃ sites, Runs env may ⟨m, .calling name⟩ sites ⟨(p.run env m).2, .calling name⟩ := by
  induction p generalizing m with
  | reply a => exact ⟨[], .refl⟩
  | fail f => exact ⟨[], .refl⟩
  | look next ih => exact ih (m.view env) (hp _) m
  | act action next ih =>
    have hfirst : Next env may ⟨m, .calling name⟩ ⟨(m.perform env action).2, .calling name⟩ :=
      .performs hp.1
    obtain ⟨sites, hrest⟩ := ih (m.perform env action).1 (hp.2 _) (m.perform env action).2
    exact ⟨_, (hfirst.runs Phase.noConfusion).trans hrest⟩

variable (hinterops : ∀ name program, env.interops.find? name = some program →
  program.KeepsTo may)

include hinterops

/-- An `EXTCALL` calls its host function, which acts and then ends. -/
theorem runs_of_extCall {m m' : Machine Ω} {target : Target} (hrun : m.status = .running)
    (hend : m.frame.atEnd = false)
    (hfetch : Machine.fetch env { m with offset := m.frame.ip } =
      (.ok ⟨.extCall, (target, ())⟩, m')) :
    ∃ sites, Runs env may ⟨m, .running⟩ sites (after (m'.exec env ⟨.extCall, (target, ())⟩)) := by
  rw [Machine.exec_extCall]
  cases hcallee : m'.callee env target with
  | error f => exact ⟨_, (Next.misses hrun hend hfetch hcallee).runs Phase.noConfusion⟩
  | ok found =>
    obtain ⟨name, program⟩ := found
    have hkeeps : program.KeepsTo may := by
      unfold Machine.callee at hcallee
      split at hcallee
      · cases hcallee
      · next name' _ =>
        split at hcallee
        · cases hcallee
        · next hfind =>
          cases hcallee
          exact hinterops _ _ hfind
    have hbegin : Next env may ⟨m, .running⟩ ⟨m'.noteCall env name, .calling name⟩ :=
      .calls hrun hend hfetch hcallee
    obtain ⟨sites, hprogram⟩ := runs_of_program name program hkeeps (m'.noteCall env name)
    have hcall := (hbegin.runs Phase.noConfusion).trans hprogram
    -- how the call ends depends on the result of the program
    dsimp only
    split
    · next f m₁ heq =>
      rw [heq] at hcall
      exact ⟨_, hcall.tail Phase.noConfusion (.fails f)⟩
    · next verdict m₁ heq =>
      rw [heq] at hcall
      exact ⟨_, hcall.tail Phase.noConfusion (.replies verdict)⟩

/-- A step of a running machine is a piece of a run. -/
theorem runs_of_step {m : Machine Ω} (hrun : m.status = .running) :
    ∃ sites, Runs env may ⟨m, .running⟩ sites (after (m.step env)) := by
  unfold Machine.step
  cases hend : m.frame.atEnd with
  | true =>
    rw [if_pos rfl]
    exact ⟨_, (Next.leaves hrun hend).runs Phase.noConfusion⟩
  | false =>
    rw [if_neg Bool.false_ne_true]
    cases hfetch : Machine.fetch env { m with offset := m.frame.ip } with
    | mk r m' =>
      cases r with
      | error f => exact ⟨_, (Next.misreads hrun hend hfetch).runs Phase.noConfusion⟩
      | ok i =>
        by_cases hcalls : ∃ target, i = ⟨.extCall, (target, ())⟩
        · obtain ⟨target, rfl⟩ := hcalls
          exact runs_of_extCall hinterops hrun hend hfetch
        · have hplain : ∀ target, i ≠ ⟨.extCall, (target, ())⟩ :=
            fun target hi => hcalls ⟨target, hi⟩
          exact ⟨_, (Next.executes hrun hend hfetch hplain).runs Phase.noConfusion⟩

/-- Steps without fault are pieces of a run. -/
theorem runs_of_reaches {m m' : Machine Ω} (h : Machine.Reaches env m m') :
    ∃ sites, Runs env may ⟨m, .running⟩ sites ⟨m', .running⟩ := by
  induction h with
  | refl => exact ⟨[], .refl⟩
  | tail _ hrun hstep ih =>
    obtain ⟨sites, hruns⟩ := ih
    obtain ⟨sites', hnext⟩ := runs_of_step hinterops hrun
    rw [hstep] at hnext
    exact ⟨_, hruns.trans hnext⟩

/-- A run ends behind its steps. -/
theorem runs_of_steps {fuel : Nat} {m : Machine Ω} {o : Outcome Ω Unit}
    (h : Machine.steps env fuel m = some o) :
    ∃ sites, Runs env may ⟨m, .running⟩ sites ⟨(Machine.finish o).2, .idle⟩ := by
  obtain ⟨r, m'⟩ := o
  have hreaches := Machine.reaches_of_steps h
  cases r with
  | ok _ =>
    obtain ⟨hreach, hstop⟩ := hreaches
    obtain ⟨sites, hruns⟩ := runs_of_reaches hinterops hreach
    exact ⟨_, hruns.tail Phase.noConfusion (.stops hstop)⟩
  | error f =>
    obtain ⟨m₁, hreach, hrun, hstep⟩ := hreaches
    obtain ⟨sites, hruns⟩ := runs_of_reaches hinterops hreach
    obtain ⟨sites', hlast⟩ := runs_of_step hinterops hrun
    rw [hstep] at hlast
    exact ⟨_, hruns.trans hlast⟩

/-- A run is a piece of a session, from one idle machine to another. -/
theorem reaches_of_runFrom {fuel : Nat} {method : Option String} {m m' : Machine Ω}
    {r : Except Fault Unit} (h : m.runFrom env fuel method = some (r, m')) :
    Reaches env may ⟨m, .idle⟩ ⟨m', .idle⟩ := by
  unfold Machine.runFrom at h
  split at h
  · next hrequest =>
    cases h
    exact (Next.refused hrequest).reaches
  · next m₁ hrequest =>
    have hbegin : Next env may ⟨m, .idle⟩ (after (m₁.checkStart env, m₁)) := .begins hrequest
    unfold Machine.run at h
    split at h
    · next f hcheck =>
      cases h
      rw [hcheck] at hbegin
      exact hbegin.reaches
    · next hcheck =>
      rw [hcheck] at hbegin
      obtain ⟨o, hsteps, heq⟩ := Option.map_eq_some_iff.mp h
      obtain ⟨sites, hrest⟩ := runs_of_steps hinterops hsteps
      rw [heq] at hrest
      exact hbegin.reaches.trans hrest.reaches

end Session

end ContractVM
