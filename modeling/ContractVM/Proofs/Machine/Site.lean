import ContractVM.Command.Execute
import ContractVM.Proofs.Machine.Confined
import ContractVM.Proofs.Machine.Session

/-! # Fault sites

    The site of a fault is put together when a run has ended: it names the context of the
    frame that is current by then, and the offset that was kept of the last fetch.  It is
    exact, for neither is touched between a fetch and the fault that follows:

    * **Instructions** that fault enter no frame and leave none.
    * **Host functions** reach neither frames nor the offset.
    * **A run** that was refused has fetched nothing, so its site is its entry. -/

namespace ContractVM

variable {Ω : Type}

/-! ## Section 1: Places -/

/-- The site of an instruction in the code of a context. -/
def Context.siteAt (c : Context) (offset : Nat) : FaultSite :=
  ⟨c.name, offset, c.script.lineFor offset⟩

namespace Machine

/-- The machine is at work on what it fetched at a place: it is in the frame that was current
    then, and has kept the offset. -/
structure WorksAt (m : Machine Ω) (place : Context × Nat) : Prop where
  context : m.frame.context = place.1
  offset : m.offset = place.2

variable {env : Env Ω} {m : Machine Ω} {place : Context × Nat}

theorem WorksAt.site_eq (h : m.WorksAt place) : m.site = place.1.siteAt place.2 := by
  unfold site Context.siteAt
  rw [h.context, h.offset]

/-- A fetch keeps the place at which it reads, whether or not it succeeds. -/
theorem worksAt_of_fetch {m' : Machine Ω} {r : Except Fault (Instr UInt32)}
    (hfetch : fetch env { m with offset := m.frame.ip } = (r, m')) :
    m'.WorksAt (m.frame.context, m.frame.ip) := by
  have hfetches := fetches env { m with offset := m.frame.ip }
  rw [hfetch] at hfetches
  cases hfetches with
  | read _ journal => exact ⟨rfl, rfl⟩
  | misread _ journal => exact ⟨rfl, rfl⟩

theorem WorksAt.noteCall (h : m.WorksAt place) (env : Env Ω) (name : String) :
    (m.noteCall env name).WorksAt place := by
  obtain ⟨journal, hnote⟩ := m.noteCall_eq env name
  rw [hnote]
  exact ⟨h.context, h.offset⟩

/-- A refused entry leaves the frames as they are. -/
theorem WorksAt.enters (h : m.WorksAt place) {config : Config} {o : Outcome Ω Unit}
    (ho : Enters config m o) {f : Fault} (hfault : o.1 = .error f) : o.2.WorksAt place := by
  cases ho with
  | entered _ _ journal => cases hfault
  | refused f journal => exact ⟨h.context, h.offset⟩

/-- What a run has to say of its fault. -/
theorem finish_faultSite (f : Fault) (m : Machine Ω) :
    (finish (.error f, m)).2.faultSite = some m.site := rfl

variable [HostData Ω]

/-- An instruction that faults is still in its frame. -/
theorem WorksAt.exec (h : m.WorksAt place) {i : Instr UInt32}
    (hplain : ∀ target, i ≠ ⟨.extCall, (target, ())⟩) {f : Fault}
    (hfault : (m.exec env i).1 = .error f) : (m.exec env i).2.WorksAt place := by
  cases exec_reach env i with
  | confined hi =>
    constructor
    · exact (hi.keeps m).context.trans h.context
    · exact (congrArg Surroundings.offset (hi.surroundings_eq m)).trans h.offset
  | calls target hi =>
    subst hi
    exact h.enters (m.enters_callTarget env.config target) hfault
  | returns hi =>
    -- leaving a frame would change the context, but it cannot fail
    subst hi
    cases hfault
  | switches handle hi =>
    subst hi
    exact h.enters (m.enters_switchContext env.config _ handle) hfault
  | callsHost target hi => exact absurd hi (hplain target)

theorem perform_offset (env : Env Ω) (hrun : m.status = .running) (action : HostAction Ω) :
    (m.perform env action).2.offset = m.offset := by
  cases action with
  | push v =>
    have hpush : Confined env.config fun m : Machine Ω => m.push env.config v := confined_push v
    exact congrArg Surroundings.offset (hpush.surroundings_eq m)
  | pop =>
    have hpop : Confined env.config fun m : Machine Ω => m.pop HostProgram.instruction :=
      confined_pop HostProgram.instruction
    exact congrArg Surroundings.offset (hpop.surroundings_eq m)
  | clearStack => rfl
  | requestRun method =>
    -- a run that began here would set the offset, but it is refused
    show (m.requestRun env method).2.offset = m.offset
    rw [requestRun_of_running hrun]
  | newStruct => rfl
  | put container key value instruction => rfl
  | insert r key value => rfl
  | deepCopy v instruction =>
    unfold perform
    dsimp only
    split
    · rfl
    · rfl
  | cast v t instruction =>
    unfold perform
    dsimp only
    split
    · rfl
    · rfl
  | newObject x => rfl
  | setObject r x => rfl
  | note level text => rfl

/-- An action of a host function leaves the place alone. -/
theorem WorksAt.perform (h : m.WorksAt place) (hrun : m.status = .running)
    (action : HostAction Ω) : (m.perform env action).2.WorksAt place where
  context := (perform_staysPut env hrun action).context.trans h.context
  offset := (perform_offset env hrun action).trans h.offset

/-- So does a whole host program. -/
theorem WorksAt.run (h : m.WorksAt place) (hrun : m.status = .running) {α : Type}
    (p : HostProgram Ω α) : (p.run env m).2.WorksAt place := by
  induction p generalizing m with
  | reply a => exact h
  | fail f => exact h
  | look next ih => exact ih (m.view env) h hrun
  | act action next ih =>
    exact ih _ (h.perform hrun action) ((perform_staysPut env hrun action).status.trans hrun)

/-- A step that faults is still at what it fetched. -/
theorem worksAt_of_step (hrun : m.status = .running) {f : Fault}
    (hfault : (m.step env).1 = .error f) :
    (m.step env).2.WorksAt (m.frame.context, m.frame.ip) := by
  unfold step at hfault ⊢
  split at hfault
  · cases hfault
  · next hend =>
    rw [if_neg hend]
    have hfetches := fetches env { m with offset := m.frame.ip }
    cases hfetch : fetch env { m with offset := m.frame.ip } with
    | mk r m' =>
      have hat := worksAt_of_fetch hfetch
      rw [hfetch] at hfault hfetches
      cases r with
      | error f => exact hat
      | ok i =>
        dsimp only at hfault ⊢
        by_cases hcalls : ∃ target, i = ⟨.extCall, (target, ())⟩
        · obtain ⟨target, rfl⟩ := hcalls
          rw [exec_extCall] at hfault ⊢
          cases hcallee : m'.callee env target with
          | error f => exact hat
          | ok found =>
            -- the host function, and then what is made of its verdict
            obtain ⟨name, program⟩ := found
            have hrun' : (m'.noteCall env name).status = .running := by
              obtain ⟨journal, hnote⟩ := m'.noteCall_eq env name
              rw [hnote]
              exact hfetches.status_eq.trans hrun
            have hhost : (program.run env (m'.noteCall env name)).2.WorksAt _ :=
              (hat.noteCall env name).run hrun' program
            rw [hcallee] at hfault
            dsimp only at hfault ⊢
            generalize program.run env (m'.noteCall env name) = o at hfault hhost ⊢
            obtain ⟨r, m₁⟩ := o
            cases r with
            | error f => exact hhost
            | ok verdict =>
              cases verdict with
              | resume => cases hfault
              | halt => cases hfault
              | fault => exact hhost
        · exact hat.exec (fun target hi => hcalls ⟨target, hi⟩) hfault

end Machine

/-! ## Section 2: The last fetch of a run -/

namespace Session

/-- What the places at which a run has fetched say about where it stands: a host function was
    called at the last one, and if a fault has ended the run, then its site is the last one. -/
def Located (s : Session Ω) (sites : List (Context × Nat)) : Prop :=
  match s.phase with
  | .running => True
  | .calling _ => s.machine.status = .running ∧
      ∃ place, sites.getLast? = some place ∧ s.machine.WorksAt place
  | .idle => s.machine.status = .fault →
      ∃ place, sites.getLast? = some place ∧
        s.machine.faultSite = some (place.1.siteAt place.2)

theorem fetchSites_of_running {m : Machine Ω} (hrun : m.status = .running)
    (hend : m.frame.atEnd = false) :
    fetchSites ⟨m, .running⟩ = [(m.frame.context, m.frame.ip)] :=
  if_pos ⟨rfl, hrun, hend⟩

theorem fetchSites_of_calling (m : Machine Ω) (name : String) :
    fetchSites ⟨m, .calling name⟩ = [] :=
  if_neg fun h => Phase.noConfusion h.1

/-- A part of a run that faults, if it does, at its last fetch. -/
theorem located_after {o : Outcome Ω Unit} {sites : List (Context × Nat)} {place : Context × Nat}
    (hlast : sites.getLast? = some place)
    (hfault : ∀ f, o.1 = .error f → o.2.WorksAt place) : (after o).Located sites := by
  obtain ⟨r, m⟩ := o
  cases r with
  | ok _ => exact trivial
  | error f =>
    intro _
    refine ⟨place, hlast, ?_⟩
    show (Machine.finish (.error f, m)).2.faultSite = _
    rw [Machine.finish_faultSite, (hfault f rfl).site_eq]

variable [HostData Ω] {env : Env Ω} {may : HostAction Ω → Prop}

/-- A step of a run fetches where the session says, and faults nowhere else. -/
theorem Next.located {s s' : Session Ω} {sites : List (Context × Nat)} (hbusy : s.phase ≠ .idle)
    (hnext : Next env may s s') (h : s.Located sites) : s'.Located (sites ++ s.fetchSites) := by
  -- a session that fetches here has this place behind all others
  have hlast : ∀ m : Machine Ω, m.status = .running → m.frame.atEnd = false →
      (sites ++ fetchSites ⟨m, .running⟩).getLast? = some (m.frame.context, m.frame.ip) := by
    intro m hrun hend
    rw [fetchSites_of_running hrun hend, List.getLast?_concat]
  cases hnext with
  | acts _ _ => exact absurd rfl hbusy
  | refused _ => exact absurd rfl hbusy
  | begins _ => exact absurd rfl hbusy
  | stops _ => exact fun hfault => nomatch hfault
  | leaves _ _ => exact trivial
  | misreads hrun hend hfetch =>
    exact located_after (hlast _ hrun hend) fun _ _ => Machine.worksAt_of_fetch hfetch
  | executes hrun hend hfetch hplain =>
    exact located_after (hlast _ hrun hend) fun _ hfault =>
      (Machine.worksAt_of_fetch hfetch).exec hplain hfault
  | misses hrun hend hfetch _ =>
    exact located_after (hlast _ hrun hend) fun _ _ => Machine.worksAt_of_fetch hfetch
  | @calls m m' target name program hrun hend hfetch _ =>
    have hstatus : m'.status = .running := by
      have hfetches := Machine.fetches env { m with offset := m.frame.ip }
      rw [hfetch] at hfetches
      exact hfetches.status_eq.trans hrun
    obtain ⟨journal, hnote⟩ := m'.noteCall_eq env name
    have hrunning : (m'.noteCall env name).status = .running := by
      rw [hnote]
      exact hstatus
    exact ⟨hrunning, _, hlast m hrun hend, (Machine.worksAt_of_fetch hfetch).noteCall env name⟩
  | performs _ =>
    obtain ⟨hrun, place, hplace, hat⟩ := h
    rw [fetchSites_of_calling, List.append_nil]
    exact ⟨(Machine.perform_staysPut env hrun _).status.trans hrun, place, hplace,
      hat.perform hrun _⟩
  | @replies m name verdict =>
    obtain ⟨-, place, hplace, hat⟩ := h
    rw [fetchSites_of_calling, List.append_nil]
    apply located_after hplace
    intro f hfault
    cases verdict with
    | resume => cases hfault
    | halt => cases hfault
    | fault => exact hat
  | fails f =>
    obtain ⟨-, place, hplace, hat⟩ := h
    rw [fetchSites_of_calling, List.append_nil]
    exact located_after hplace fun _ _ => hat

/-- So the whole run faults at its last fetch. -/
theorem Runs.located {s s' : Session Ω} {sites : List (Context × Nat)}
    (h : Runs env may s sites s') (hrun : s.phase = .running) : s'.Located sites := by
  induction h with
  | refl =>
    unfold Located
    rw [hrun]
    exact trivial
  | tail _ hbusy hnext ih => exact hnext.located hbusy ih

end Session

/-! ## Section 3: Runs of the entry script -/

namespace Machine

variable {env : Env Ω} {m : Machine Ω} {method : Option String}

/-- The end of a run that faulted is a fault. -/
theorem status_of_finish {o : Outcome Ω Unit} {f : Fault} {m' : Machine Ω}
    (h : finish o = (.error f, m')) : m'.status = .fault := by
  obtain ⟨r, m⟩ := o
  cases r with
  | ok _ => cases h
  | error f =>
    cases h
    rfl

variable [HostData Ω]

/-- A method that there is not is a fault without a site, and nothing else but a line of the
    journal has changed. -/
theorem runFrom_of_unknown (hidle : m.status ≠ .running) {name : String}
    (hentry : env.entryOffset? (some name) = none) (fuel : Nat) :
    ∃ journal, m.runFrom env fuel (some name) = some (.error (.unknownLabel name),
      { m with status := .fault, faultSite := none, journal }) := by
  obtain ⟨journal, hrequest⟩ := requestRun_of_unknown hidle hentry
  unfold runFrom
  rw [hrequest]
  exact ⟨journal, rfl⟩

/-- Without an entry offset no run begins, and no site is kept. -/
theorem runFrom_of_no_entry (hidle : m.status ≠ .running)
    (hentry : env.entryOffset? method = none) (fuel : Nat) :
    ∃ f m', m.runFrom env fuel method = some (.error f, m') ∧ m'.faultSite = none := by
  cases method with
  | none => cases hentry
  | some name =>
    obtain ⟨journal, hrun⟩ := runFrom_of_unknown hidle hentry fuel
    exact ⟨_, _, hrun, rfl⟩

end Machine

theorem HostProgram.keepsTo_of_forall {α : Type} {may : HostAction Ω → Prop}
    (hmay : ∀ action, may action) (p : HostProgram Ω α) : p.KeepsTo may := by
  induction p with
  | reply a => exact trivial
  | fail f => exact trivial
  | look next ih => exact ih
  | act action next ih => exact ⟨hmay action, ih⟩

/-- **Fault sites are exact.** Let a machine that does not run be asked for a run of the entry
    script, from its start or from one of its methods, whatever the scripts, the contexts and
    the host functions are.

    A run that is refused before it fetches has the entry as its site.  Any other run may call
    host functions that act as they like, each time anew.  If it ends with a fault, then it has
    fetched, and the site is the place of the last fetch: the name of the context in whose
    frame this was, the offset of the instruction, and the line that the context gives for it.
    The runs of `runFrom` are among them.  A method that there is not has no entry, so that no
    run begins and there is no site. -/
theorem fault_site_exact {Ω : Type} [HostData Ω] (env : Env Ω) {m : Machine Ω}
    (hidle : m.status ≠ .running) (method : Option String) :
    (∀ entry, env.entryOffset? method = some entry →
      let start := m.start env entry
      m.requestRun env method = (.ok (), start) ∧
      (∀ f, start.checkStart env = .error f → ∀ fuel, ∃ m',
        m.runFrom env fuel method = some (.error f, m') ∧
          m'.faultSite = some ⟨env.entry.name, entry, env.entry.script.lineFor entry⟩) ∧
      (start.checkStart env = .ok () →
        (∀ sites s, Session.Runs env (fun _ => True) ⟨start, .running⟩ sites s →
          s.phase = .idle → s.machine.status = .fault →
          ∃ c offset, sites.getLast? = some (c, offset) ∧
            s.machine.faultSite = some ⟨c.name, offset, c.script.lineFor offset⟩) ∧
        ∀ fuel f m', m.runFrom env fuel method = some (.error f, m') →
          m'.status = .fault ∧
            ∃ sites, Session.Runs env (fun _ => True) ⟨start, .running⟩ sites ⟨m', .idle⟩)) ∧
    (env.entryOffset? method = none → ∀ fuel, ∃ f m',
      m.runFrom env fuel method = some (.error f, m') ∧ m'.faultSite = none) := by
  refine ⟨?_, Machine.runFrom_of_no_entry hidle⟩
  intro entry hentry start
  have hrequest := Machine.requestRun_of_entry hidle hentry
  have hrunFrom : ∀ fuel, m.runFrom env fuel method = start.run env fuel := by
    intro fuel
    unfold Machine.runFrom
    rw [hrequest]
  refine ⟨hrequest, ?refused, ?begun⟩
  case refused =>
    intro f hcheck fuel
    refine ⟨(Machine.finish (.error f, start)).2, ?_, rfl⟩
    rw [hrunFrom]
    unfold Machine.run
    rw [hcheck]
    rfl
  case begun =>
    intro hcheck
    constructor
    · intro sites s hruns hphase hfault
      have hlocated := hruns.located rfl
      unfold Session.Located at hlocated
      rw [hphase] at hlocated
      obtain ⟨⟨c, offset⟩, hlast, hsite⟩ := hlocated hfault
      exact ⟨c, offset, hlast, hsite⟩
    · intro fuel f m' hrun
      rw [hrunFrom] at hrun
      unfold Machine.run at hrun
      rw [hcheck] at hrun
      obtain ⟨o, hsteps, heq⟩ := Option.map_eq_some_iff.mp hrun
      have hinterops : ∀ name program, env.interops.find? name = some program →
          program.KeepsTo fun _ => True :=
        fun _ program _ => program.keepsTo_of_forall fun _ => trivial
      obtain ⟨sites, hruns⟩ := Session.runs_of_steps hinterops hsteps
      rw [heq] at hruns
      exact ⟨Machine.status_of_finish heq, sites, hruns⟩

/-- A script that calls a place where an instruction breaks off. -/
theorem broken_callee_is_located :
    let code := ((⟨.call, (5, ())⟩ : Instr UInt32).encode ++ [Opcode.load.byte]).toArray
    let c : Context := ⟨0, "main", ⟨code, [], some ⟨[], [(0, 1), (5, 2)]⟩⟩⟩
    let env : Env Empty := ⟨{}, c, .empty, .empty⟩
    let m : Machine Empty := Machine.initial env.config c .empty
    ∃ sites m', Session.Runs env (fun _ => True) ⟨m.start env 0, .running⟩ sites ⟨m', .idle⟩ ∧
      m'.faultSite = some ⟨"main", 5, some 2⟩ ∧ ∃ c, sites.getLast? = some (c, 5) := by
  intro code c env m
  have hidle : m.status ≠ .running := by decide
  obtain ⟨hentry, -⟩ := fault_site_exact env hidle none
  have hcheck : (m.start env 0).checkStart env = .ok () := rfl
  obtain ⟨-, -, hbegun⟩ := hentry 0 rfl
  obtain ⟨hlocated, hruns⟩ := hbegun hcheck
  have hrun : (m.runFrom env 2 none).map (fun o => (o.1.toOption, o.2.faultSite)) =
      some (none, some ⟨"main", 5, some 2⟩) := by
    decide +kernel
  obtain ⟨⟨r, m'⟩, hrun, heq⟩ := Option.map_eq_some_iff.mp hrun
  obtain ⟨hresult, hsite⟩ := Prod.mk.inj heq
  cases r with
  | ok _ => cases hresult
  | error f =>
    obtain ⟨hfault, sites, hruns⟩ := hruns 2 f m' hrun
    obtain ⟨c', offset, hlast, hsite'⟩ := hlocated sites _ hruns rfl hfault
    refine ⟨sites, m', hruns, hsite, c', ?_⟩
    have hoffset : offset = 5 :=
      congrArg FaultSite.offset (Option.some.inj (hsite'.symm.trans hsite))
    rw [← hoffset]
    exact hlast

end ContractVM
