import ContractVM.Proofs.Machine.Limits

/-! # Limits only cut runs short

    Scripts are run twice, and no limit of the first machine is larger than that of the second
    one: registers, frames alive at once, values on the stack.  Either the first run is cut
    short by one of its limits, or the second one does the same.

    * **Host functions** are shown the limits and all registers.  They have to do without, and
      must not go on when a limit is met: `IgnoresLimits`.  Functions that only push, pop and
      peek, and pass faults on, are of this kind.
    * **Steps**: one step of the first machine meets a limit, or the second machine takes the
      same step, `ExtendsTo.step`.
    * **Runs**: so the second machine comes by all states of the first, and what does not end
      with a limit ends in the same way. -/

namespace ContractVM

variable {Ω α β : Type}

/-! ## Section 1: Host functions -/

/-- What two host functions see is the same, but for limits and registers. -/
def View.SameButLimits (v v' : View Ω) : Prop :=
  { v with config := v'.config, registers := v'.registers } = v'

/-- Does the program do without the limits and the registers that it sees, and give up
    when a limit is met? -/
def HostProgram.IgnoresLimits : HostProgram Ω α → Prop
  | .reply _ => True
  | .fail _ => True
  | .look next =>
    (∀ v v', View.SameButLimits v v' → next v = next v') ∧ ∀ v, (next v).IgnoresLimits
  | .act _ next =>
    (∀ f : Fault, f.isLimit = true → next (.error f) = .fail f) ∧
      ∀ answer, (next answer).IgnoresLimits

/-- Do all host functions of the table? -/
def InteropTable.IgnoresLimits (t : InteropTable Ω) : Prop :=
  ∀ name p, t.find? name = some p → p.IgnoresLimits

namespace HostProgram

/-- One program after the other. -/
theorem IgnoresLimits.bind {p : HostProgram Ω α} (hp : p.IgnoresLimits)
    {f : α → HostProgram Ω β} (hf : ∀ a, (f a).IgnoresLimits) : (p >>= f).IgnoresLimits := by
  show (p.bind f).IgnoresLimits
  induction p with
  | reply a => exact hf a
  | fail e => exact trivial
  | look next ih =>
    obtain ⟨hsame, hnext⟩ := hp
    refine ⟨fun v v' hv => ?_, fun v => ih v (hnext v)⟩
    exact congrArg (fun p => HostProgram.bind p f) (hsame v v' hv)
  | act action next ih =>
    obtain ⟨hlimit, hnext⟩ := hp
    refine ⟨fun e he => ?_, fun answer => ih answer (hnext answer)⟩
    exact congrArg (fun p => HostProgram.bind p f) (hlimit e he)

/-- An action whose faults are passed on. -/
theorem ignoresLimits_perform (action : HostAction Ω) : (perform action).IgnoresLimits := by
  refine ⟨fun _ _ => rfl, fun answer => ?_⟩
  cases answer with
  | ok v => exact trivial
  | error f => exact trivial

theorem ignoresLimits_push (v : Value) : (push v : HostProgram Ω Unit).IgnoresLimits :=
  (ignoresLimits_perform (.push v)).bind fun _ => trivial

theorem ignoresLimits_pop : (pop : HostProgram Ω Value).IgnoresLimits :=
  ignoresLimits_perform .pop

/-- The value on top of the stack, which stays there. -/
def peek : HostProgram Ω (Option Value) := do
  let view ← view
  return view.stack.back?

theorem ignoresLimits_peek : (peek : HostProgram Ω (Option Value)).IgnoresLimits := by
  refine ⟨fun v v' hv => ?_, fun _ => trivial⟩
  show HostProgram.reply v.stack.back? = .reply v'.stack.back?
  rw [← hv]

end HostProgram

namespace Machine

variable {n : Nat} {env : Env Ω} {config' : Config} {m m' : Machine Ω}

/-- Host functions are shown the same, but for limits and registers. -/
theorem ExtendsTo.view (h : m.ExtendsTo n m') (env : Env Ω) (config' : Config) :
    View.SameButLimits (m.view env) (m'.view (env.withConfig config')) := by
  unfold View.SameButLimits Machine.view
  rw [h.frame.context, h.depth_eq, h.stack, h.status, h.faultSite, h.heap]
  rfl

variable [HostData Ω]

/-- Actions are done alike, until the stack is full. -/
theorem ExtendsTo.perform (h : m.ExtendsTo n m') (hle : env.config.AtMost config')
    (hrun : m.status = .running) (action : HostAction Ω) :
    UnlessLimited n (m.perform env action) (m'.perform (env.withConfig config') action) := by
  cases action with
  | push v => exact (h.push hle v).answer
  | pop => exact h.pop HostProgram.instruction
  | clearStack => exact .same _ (h.withStack #[])
  | requestRun method =>
    -- refused by both, for they are running
    show UnlessLimited n (answer (m.requestRun env method))
      (answer (m'.requestRun (env.withConfig config') method))
    rw [requestRun_of_running hrun, requestRun_of_running (h.status.symm.trans hrun)]
    exact (UnlessLimited.same _ h).answer
  | newStruct =>
    show UnlessLimited n (_, _) (_, _)
    rw [h.heap]
    exact .same _ (h.withHeap _)
  | put container key value instruction =>
    show UnlessLimited n (_, _) (_, _)
    rw [h.heap]
    exact .same _ (h.withHeap _)
  | insert r key value =>
    show UnlessLimited n (_, _) (_, _)
    rw [h.heap]
    exact .same _ (h.withHeap _)
  | deepCopy v instruction =>
    unfold Machine.perform
    dsimp only
    rw [h.heap]
    split
    · exact .same _ (h.withHeap _)
    · exact .same _ h
  | cast v t instruction =>
    unfold Machine.perform
    dsimp only
    rw [h.heap]
    split
    · exact .same _ (h.withHeap _)
    · exact .same _ h
  | newObject x =>
    show UnlessLimited n (_, _) (_, _)
    rw [h.heap]
    exact .same _ (h.withHeap _)
  | setObject r x =>
    show UnlessLimited n (_, _) (_, _)
    rw [h.heap]
    exact .same _ (h.withHeap _)
  | note level text => exact .same _ (h.withJournals _ _)

/-- Host programs go on alike.  The induction is on the program: each answer is the same, or
    is a limit, at which the program gives up. -/
theorem ExtendsTo.run (hle : env.config.AtMost config') {p : HostProgram Ω α}
    (hp : p.IgnoresLimits) (h : m.ExtendsTo n m') (hrun : m.status = .running) :
    UnlessLimited n (p.run env m) (p.run (env.withConfig config') m') := by
  induction p generalizing m m' with
  | reply a => exact .same (.ok a) h
  | fail f => exact .same (.error f) h
  | look next ih =>
    obtain ⟨hsame, hnext⟩ := hp
    show UnlessLimited n ((next (m.view env)).run env m)
      ((next (m'.view (env.withConfig config'))).run (env.withConfig config') m')
    -- what the program may look at is the same in both, so it goes on alike
    rw [← hsame _ _ (h.view env config')]
    exact ih _ (hnext _) h hrun
  | act action next ih =>
    obtain ⟨hlimit, hnext⟩ := hp
    have hfirst := h.perform hle hrun action
    have hrun' : (m.perform env action).2.status = .running :=
      (perform_staysPut env hrun action).status.trans hrun
    unfold HostProgram.run
    generalize m.perform env action = o, m'.perform (env.withConfig config') action = o'
      at hfirst hrun'
    cases hfirst with
    | limit hf =>
      dsimp only
      rw [hlimit _ hf]
      exact .limit hf
    | same r h₁ => exact ih r (hnext r) h₁ hrun'

omit [HostData Ω] in
theorem ExtendsTo.noteCall (h : m.ExtendsTo n m') (env env' : Env Ω) (name : String) :
    (m.noteCall env name).ExtendsTo n (m'.noteCall env' name) := by
  obtain ⟨journal, hnote⟩ := m.noteCall_eq env name
  obtain ⟨journal', hnote'⟩ := m'.noteCall_eq env' name
  rw [hnote, hnote']
  exact h.withJournals journal journal'

omit [HostData Ω] in
/-- The same host function is called, unless its name cannot be read. -/
theorem ExtendsTo.callee (h : m.ExtendsTo n m') (env : Env Ω) (config' : Config)
    (target : Target) :
    CutShort (m.callee env target) (m'.callee (env.withConfig config') target) := by
  have hname : CutShort (m.hostName target) (m'.hostName target) := by
    cases target with
    | named name => exact .same _
    | register index => exact h.stringIn _ index
  unfold Machine.callee
  generalize m.hostName target = x, m'.hostName target = x' at hname
  cases hname with
  | limit hf => exact .limit hf
  | error f => exact .error f
  | ok name => exact .same _

omit [HostData Ω] in
/-- The functions that are called are those of the table. -/
theorem ignoresLimits_of_callee (hhosts : env.interops.IgnoresLimits) {target : Target}
    {name : String} {p : HostProgram Ω Verdict} (h : m.callee env target = .ok (name, p)) :
    p.IgnoresLimits := by
  unfold callee at h
  split at h
  · cases h
  · split at h
    · cases h
    · next hfind =>
      cases h
      exact hhosts _ _ hfind

theorem ExtendsTo.extCall (hle : env.config.AtMost config') (hhosts : env.interops.IgnoresLimits)
    (h : m.ExtendsTo n m') (hrun : m.status = .running) (target : Target) :
    UnlessLimited n (m.exec env ⟨.extCall, (target, ())⟩)
      (m'.exec (env.withConfig config') ⟨.extCall, (target, ())⟩) := by
  have hcallee := h.callee env config' target
  have hignores : ∀ name p, m.callee env target = .ok (name, p) → p.IgnoresLimits :=
    fun _ _ => ignoresLimits_of_callee hhosts
  rw [exec_extCall, exec_extCall]
  generalize m.callee env target = x, m'.callee (env.withConfig config') target = x'
    at hcallee hignores
  cases hcallee with
  | limit hf => exact .limit hf
  | error f => exact .same (.error f) h
  | ok found =>
    obtain ⟨name, p⟩ := found
    have hrun' : (m.noteCall env name).status = .running := by
      obtain ⟨journal, hnote⟩ := m.noteCall_eq env name
      rw [hnote]
      exact hrun
    have hcall := ExtendsTo.run hle (hignores name p rfl)
      (h.noteCall env (env.withConfig config') name) hrun'
    dsimp only
    generalize p.run env (m.noteCall env name) = o,
      p.run (env.withConfig config') (m'.noteCall (env.withConfig config') name) = o' at hcall
    cases hcall with
    | limit hf => exact .limit hf
    | same r h₁ =>
      cases r with
      | error f => exact .same (.error f) h₁
      | ok verdict =>
        cases verdict with
        | resume => exact .same (.ok ()) h₁
        | halt => exact .same (.ok ()) (h₁.withStatus .halt)
        | fault => exact .same (.error (.interopFault name "host reported a fault")) h₁

/-! ## Section 2: Instructions -/

/-- Work is done alike, until a limit is met.  The cases are the kinds of work. -/
theorem ExtendsTo.works (hle : env.config.AtMost config')
    (h : m.ExtendsTo env.config.registers m') {i : Instr UInt32} {known : List Value} {w : Work Ω}
    (hw : Works i known w) :
    UnlessLimited env.config.registers (w env m) (w (env.withConfig config') m') := by
  induction hw with
  | ends => exact .same _ h
  | reads index _ ih =>
    have hread := h.register index
    dsimp only
    generalize m.register index = x, m'.register index = x' at hread
    cases hread with
    | limit hf => exact .limit hf
    | error f => exact .same (.error f) h
    | ok v => exact ih v
  | @sets _ changes => exact .same (.ok ()) (h.setRegisters changes)
  | @asks _ dst =>
    dsimp only
    rw [h.heap]
    exact h.store dst _
  | @makes _ dst =>
    dsimp only
    rw [h.heap]
    exact h.storeWithHeap dst _
  | @pushes _ src => exact h.pushRegister hle src
  | @pops _ dst _ instruction => exact h.popRegister instruction dst
  | @puts _ value container key _ instruction => exact h.putEntry instruction value container key
  | @jumps _ target => exact h.jump target

/-- Every instruction is executed alike, until a limit is met. -/
theorem ExtendsTo.exec (hle : env.config.AtMost config') (hhosts : env.interops.IgnoresLimits)
    (h : m.ExtendsTo env.config.registers m') (hrun : m.status = .running) (i : Instr UInt32) :
    UnlessLimited env.config.registers (m.exec env i) (m'.exec (env.withConfig config') i) := by
  cases exec_does (Ω := Ω) i with
  | works hw => exact h.works hle hw
  | calls target hi =>
    subst hi
    exact h.callTarget hle target
  | returns hi =>
    subst hi
    exact .same (.ok ()) h.leave
  | switches handle hi =>
    subst hi
    exact h.switchContext hle _ handle
  | callsHost target hi =>
    subst hi
    exact ExtendsTo.extCall hle hhosts h hrun target

/-! ## Section 3: Steps -/

/-- One step meets a limit, or it is taken alike. -/
theorem ExtendsTo.step (hle : env.config.AtMost config') (hhosts : env.interops.IgnoresLimits)
    (h : m.ExtendsTo env.config.registers m') (hrun : m.status = .running) :
    UnlessLimited env.config.registers (m.step env) (m'.step (env.withConfig config')) := by
  have hcode : m.frame.context.code = m'.frame.context.code := by rw [h.frame.context]
  by_cases hend : m.frame.context.code.size ≤ m.frame.ip
  · have hend' : m'.frame.context.code.size ≤ m'.frame.ip := by rwa [← hcode, ← h.frame.ip]
    rw [m.step_of_atEnd hend, m'.step_of_atEnd hend']
    exact .same (.ok ()) h.leave
  · have hin : m.frame.atEnd = false := decide_eq_false hend
    have hin' : m'.frame.atEnd = false := by
      unfold Frame.atEnd at hin ⊢
      rwa [← hcode, ← h.frame.ip]
    -- the machine behind the opcode, whose offset is that of the instruction
    have hat : ∀ journal journal', ({ m with offset := m.frame.ip, journal } : Machine Ω).ExtendsTo
        env.config.registers { m' with offset := m'.frame.ip, journal := journal' } := by
      intro journal journal'
      exact ⟨h.frame, h.callers, h.stack, h.status, h.frame.ip, h.faultSite, h.heap⟩
    cases hread : Reader.instr m.frame.context.code m.frame.ip with
    | error f =>
      have hread' : Reader.instr m'.frame.context.code m'.frame.ip = .error f := by
        rwa [← hcode, ← h.frame.ip]
      obtain ⟨journal, hfetch⟩ := fetch_of_misread env hread
      obtain ⟨journal', hfetch'⟩ := fetch_of_misread (env.withConfig config') hread'
      rw [step_of_fetch_error hin hfetch, step_of_fetch_error hin' hfetch']
      exact .same _ (hat journal journal')
    | ok read =>
      obtain ⟨i, next⟩ := read
      have hread' : Reader.instr m'.frame.context.code m'.frame.ip = .ok (i, next) := by
        rwa [← hcode, ← h.frame.ip]
      obtain ⟨journal, hfetch⟩ := fetch_of_read env hread
      obtain ⟨journal', hfetch'⟩ := fetch_of_read (env.withConfig config') hread'
      rw [step_of_fetch hin hfetch, step_of_fetch hin' hfetch']
      exact ExtendsTo.exec hle hhosts ((hat journal journal').withIp next) hrun i

/-- The functions of the host may be others at each step. -/
theorem ExtendsTo.stepWith (hle : env.config.AtMost config') {t : InteropTable Ω}
    (ht : t.IgnoresLimits) (h : m.ExtendsTo env.config.registers m') (hrun : m.status = .running) :
    UnlessLimited env.config.registers (m.step (env.withInterops t))
      (m'.step ((env.withConfig config').withInterops t)) := by
  have hle' : (env.withInterops t).config.AtMost config' := hle
  exact ExtendsTo.step hle' ht h hrun

/-- Stretches without fault are taken alike, step by step. -/
theorem StaysAbove.extended (hle : env.config.AtMost config') {tables : List (InteropTable Ω)}
    (htables : ∀ t ∈ tables, t.IgnoresLimits) {m₁ : Machine Ω}
    (hstays : StaysAbove 0 m (tables.map env.withInterops) m₁)
    (h : m.ExtendsTo env.config.registers m') :
    ∃ m₁', StaysAbove 0 m' (tables.map (env.withConfig config').withInterops) m₁' ∧
      m₁.ExtendsTo env.config.registers m₁' := by
  induction tables generalizing m₁ with
  | nil =>
    cases hstays
    exact ⟨m', .refl, h⟩
  | cons t tables ih =>
    cases hstays with
    | @tail _ _ m₂ _ hstays hrun hstep _ =>
      obtain ⟨ht, hrest⟩ := List.forall_mem_cons.mp htables
      obtain ⟨m₂', hstays', h₂⟩ := ih hrest hstays
      have hnext := h₂.stepWith hle ht hrun
      rw [hstep] at hnext
      obtain ⟨m₁', hstep', h₁⟩ := hnext.exists_ok
      exact ⟨m₁', hstays'.tail (h₂.status.symm.trans hrun) hstep' (Nat.zero_le _), h₁⟩

/-! ## Section 4: Runs -/

/-- Whole runs are taken alike, unless they end with a limit. -/
theorem ExtendsTo.stepsWith (hle : env.config.AtMost config') {hosts : Nat → InteropTable Ω}
    (hhosts : ∀ k, (hosts k).IgnoresLimits) {fuel : Nat} {r : Except Fault Unit} {m₁ : Machine Ω}
    (h : m.ExtendsTo env.config.registers m')
    (hrun : Machine.stepsWith env hosts fuel m = some (r, m₁))
    (hfree : ∀ f, r = .error f → f.isLimit = false) :
    ∃ m₁', Machine.stepsWith (env.withConfig config') hosts fuel m' = some (r, m₁') ∧
      m₁.ExtendsTo env.config.registers m₁' := by
  obtain ⟨k, hk, hends⟩ := stepsWith_eq_some_iff.mp hrun
  cases hends with
  | halts hrow hhalt =>
    obtain ⟨m₁', hrow', h₁⟩ := hrow.extended hle (forall_upTo hhosts k) h
    have hhalt' : m₁'.status ≠ .running := fun hgoes => hhalt (h₁.status.trans hgoes)
    exact ⟨m₁', (EndsAfter.halts hrow' hhalt').stepsWith_eq hk, h₁⟩
  | faults hrow hgoes hstep =>
    obtain ⟨m₂', hrow', h₂⟩ := hrow.extended hle (forall_upTo hhosts k) h
    have hnext := h₂.stepWith hle (hhosts k) hgoes
    rw [hstep] at hnext
    -- the fault is no limit, so the second machine has the same one
    obtain ⟨m₁', hstep', h₁⟩ := hnext.exists_eq hfree
    have hgoes' := h₂.status.symm.trans hgoes
    exact ⟨m₁', (EndsAfter.faults hrow' hgoes' hstep').stepsWith_eq hk, h₁⟩

section Ends

omit [HostData Ω]

/-- The ends of runs are the same, but for registers beyond the first `n`. -/
structure SameEnd (n : Nat) (o o' : Outcome Ω Unit) : Prop where
  result : o'.1 = o.1
  faultSite : o'.2.faultSite = o.2.faultSite
  stack : o'.2.stack = o.2.stack
  depth : o'.2.depth = o.2.depth
  registers : ∀ k, k < n → o'.2.frame.registers[k]? = o.2.frame.registers[k]?
  machine : o.2.ExtendsTo n o'.2

theorem ExtendsTo.sameEnd (h : m.ExtendsTo n m') (r : Except Fault Unit) :
    SameEnd n (r, m) (r, m') :=
  ⟨rfl, h.faultSite.symm, h.stack.symm, h.depth_eq.symm, h.frame.registers, h⟩

/-- A fault is noted at the same site. -/
theorem ExtendsTo.finish (h : m.ExtendsTo n m') (r : Except Fault Unit) :
    SameEnd n (Machine.finish (r, m)) (Machine.finish (r, m')) := by
  cases r with
  | ok _ => exact (h.withStatus .halt).sameEnd (.ok ())
  | error f =>
    have hsite : m.site = m'.site := by
      unfold site
      rw [h.frame.context, h.offset]
    have hend : (Machine.finish (.error f, m)).2.ExtendsTo n (Machine.finish (.error f, m')).2 :=
      ⟨h.frame, .nil, h.stack, rfl, h.offset, congrArg some hsite, h.heap⟩
    exact hend.sameEnd (.error f)

theorem ExtendsTo.start (h : m.ExtendsTo n m') (hle : env.config.AtMost config') (offset : Nat) :
    (m.start env offset).ExtendsTo env.config.registers
      (m'.start (env.withConfig config') offset) :=
  ⟨Frame.extendsTo_fresh hle env.entry offset, .nil, h.stack, rfl, rfl, rfl, h.heap⟩

/-- Runs are requested alike. -/
theorem ExtendsTo.requestRun (h : m.ExtendsTo env.config.registers m')
    (hle : env.config.AtMost config') (method : Option String) :
    UnlessLimited env.config.registers (m.requestRun env method)
      (m'.requestRun (env.withConfig config') method) := by
  have hrequests := m.requests env method
  generalize m.requestRun env method = o at hrequests ⊢
  cases hrequests with
  | nested hrun =>
    rw [requestRun_of_running (h.status.symm.trans hrun)]
    exact .same _ h
  | starts hidle hentry =>
    have hidle' : m'.status ≠ .running := fun hrun => hidle (h.status.trans hrun)
    have hentry' : (env.withConfig config').entryOffset? method = some _ := hentry
    rw [requestRun_of_entry hidle' hentry']
    exact .same _ (h.start hle _)
  | unknown hidle hmethod hentry journal =>
    subst hmethod
    have hidle' : m'.status ≠ .running := fun hrun => hidle (h.status.trans hrun)
    have hentry' : (env.withConfig config').entryOffset? (some _) = none := hentry
    obtain ⟨journal', hrequest⟩ := requestRun_of_unknown hidle' hentry'
    rw [hrequest]
    exact .same _ ⟨h.frame, h.callers, h.stack, rfl, h.offset, rfl, h.heap⟩

theorem ExtendsTo.checkStart (h : m.ExtendsTo n m') (hle : env.config.AtMost config') :
    CutShort (m.checkStart env) (m'.checkStart (env.withConfig config')) := by
  unfold Machine.checkStart
  rw [h.frame.context, h.frame.ip]
  exact (hle.checkContext m'.frame.context).bind fun _ => .same _

end Ends

/-- A run ends with a limit, or the second machine has the same run. -/
theorem ExtendsTo.runFromWith (hle : env.config.AtMost config') {hosts : Nat → InteropTable Ω}
    (hhosts : ∀ k, (hosts k).IgnoresLimits) {fuel : Nat} {method : Option String}
    {o : Outcome Ω Unit} (h : m.ExtendsTo env.config.registers m')
    (hrun : m.runFromWith env hosts fuel method = some o)
    (hfree : ∀ f, o.1 = .error f → f.isLimit = false) :
    ∃ o', m'.runFromWith (env.withConfig config') hosts fuel method = some o' ∧
      SameEnd env.config.registers o o' := by
  have hrequest := h.requestRun hle method
  unfold Machine.runFromWith at hrun ⊢
  generalize m.requestRun env method = request,
    m'.requestRun (env.withConfig config') method = request' at hrequest hrun
  cases hrequest with
  | limit hf =>
    cases hrun
    rw [hfree _ rfl] at hf
    cases hf
  | @same r m₁ m₁' h₁ =>
    cases r with
    | error f =>
      cases hrun
      exact ⟨_, rfl, h₁.sameEnd (.error f)⟩
    | ok _ =>
      have hcheck := h₁.checkStart hle
      dsimp only at hrun ⊢
      generalize m₁.checkStart env = x, m₁'.checkStart (env.withConfig config') = x' at hcheck hrun
      cases hcheck with
      | limit hf =>
        cases hrun
        rw [hfree _ rfl] at hf
        cases hf
      | error f =>
        cases hrun
        exact ⟨_, rfl, h₁.finish (.error f)⟩
      | ok _ =>
        obtain ⟨⟨r, m₂⟩, hsteps, rfl⟩ := Option.map_eq_some_iff.mp hrun
        have hfree₂ : ∀ f, r = .error f → f.isLimit = false := by
          intro f hf
          subst hf
          exact hfree f rfl
        obtain ⟨m₂', hsteps', h₂⟩ := ExtendsTo.stepsWith hle hhosts h₁ hsteps hfree₂
        refine ⟨Machine.finish (r, m₂'), ?_, h₂.finish r⟩
        dsimp only
        rw [hsteps']
        rfl

end Machine

/-- **Limits only cut runs short.** Let two machines have the same entry script, registry,
    stack and heap, and let no limit of the first be larger than that of the second.  Let the
    host functions, which may remember earlier calls, do without the limits and the registers,
    and give up when a limit is met.

    Then the second machine takes every step that the first one takes without fault, and is
    in the same state after it.  If a run of the first machine ends in any way but with one of
    the four faults for limits, then the run of the second ends after the same number of steps
    with the same result, the same site, stack, depth and heap, and with the same values in all
    registers that the first machine has. -/
theorem limits_only_cut_short {Ω : Type} [HostData Ω] {env : Env Ω} {config' : Config}
    (hle : env.config.AtMost config') {m m' : Machine Ω}
    (h : m.ExtendsTo env.config.registers m') :
    (∀ offset (tables : List (InteropTable Ω)), (∀ t ∈ tables, t.IgnoresLimits) → ∀ m₁,
      Machine.StaysAbove 0 (m.start env offset) (tables.map env.withInterops) m₁ →
        ∃ m₁', Machine.StaysAbove 0 (m'.start (env.withConfig config') offset)
            (tables.map (env.withConfig config').withInterops) m₁' ∧
          m₁.ExtendsTo env.config.registers m₁') ∧
    (∀ hosts : Nat → InteropTable Ω, (∀ k, (hosts k).IgnoresLimits) → ∀ fuel method o,
      m.runFromWith env hosts fuel method = some o → (∀ f, o.1 = .error f → f.isLimit = false) →
        ∃ o', m'.runFromWith (env.withConfig config') hosts fuel method = some o' ∧
          Machine.SameEnd env.config.registers o o') ∧
    (env.interops.IgnoresLimits → ∀ fuel method o, m.runFrom env fuel method = some o →
      (∀ f, o.1 = .error f → f.isLimit = false) →
        ∃ o', m'.runFrom (env.withConfig config') fuel method = some o' ∧
          Machine.SameEnd env.config.registers o o') := by
  refine ⟨?steps, ?runs, ?fixed⟩
  case steps =>
    intro offset tables htables m₁ hstays
    exact hstays.extended hle htables (h.start hle offset)
  case runs =>
    intro hosts hhosts fuel method o hrun hfree
    exact Machine.ExtendsTo.runFromWith hle hhosts h hrun hfree
  case fixed =>
    intro hhosts fuel method o hrun hfree
    rw [← Machine.runFromWith_same] at hrun
    obtain ⟨o', hrun', hend⟩ := Machine.ExtendsTo.runFromWith hle (fun _ => hhosts) h hrun hfree
    refine ⟨o', ?_, hend⟩
    rw [← Machine.runFromWith_same]
    exact hrun'

/-- A host function doubles the number on the stack, with one register, one frame and room for
    one value, and with the usual limits. -/
theorem doubled_under_any_limits :
    let double : HostProgram Empty Verdict := do
      let n ← HostProgram.pop
      let rest ← HostProgram.peek
      match n, rest with
      | .number n, none => HostProgram.push (.number (n + n))
      | v, _ => HostProgram.push v
      return .resume
    let code : List (Instr UInt32) :=
      [⟨.load, (0, .number 21, ())⟩, ⟨.push, (0, ())⟩, ⟨.extCall, (.named "double", ())⟩,
        ⟨.pop, (0, ())⟩]
    let main : Context := ⟨0, "main", .ofCode (code.flatMap Instr.encode).toArray⟩
    let env : Env Empty := ⟨⟨1, 1, 1, false⟩, main, .empty, ⟨[("double", double)]⟩⟩
    let m : Machine Empty := .initial env.config main .empty
    let m' : Machine Empty := .initial {} main .empty
    ∃ o o', m.execute env 9 = some o ∧ m'.execute (env.withConfig {}) 9 = some o' ∧
      o'.1 = o.1 ∧ o'.2.frame.registers[0]? = some (.number 42) := by
  intro double code main env m m'
  have hdouble : double.IgnoresLimits := by
    refine HostProgram.ignoresLimits_pop.bind ?_
    intro n
    refine HostProgram.ignoresLimits_peek.bind ?_
    intro rest
    have hpush : ∀ v, (HostProgram.push v >>= fun _ => pure Verdict.resume :
        HostProgram Empty Verdict).IgnoresLimits :=
      fun v => (HostProgram.ignoresLimits_push v).bind fun _ => trivial
    split
    · exact hpush _
    · exact hpush _
  have hhosts : env.interops.IgnoresLimits := by
    intro name p hfind
    unfold InteropTable.find? at hfind
    simp only [env, List.lookup_cons, List.lookup_nil] at hfind
    split at hfind
    · cases hfind
      exact hdouble
    · cases hfind
  have hle : env.config.AtMost {} := ⟨by decide, by decide, by decide⟩
  obtain ⟨-, -, hruns⟩ := limits_only_cut_short hle
    (Machine.extendsTo_initial hle main .empty #[] : m.ExtendsTo _ m')
  have hvalue : (m.execute env 9).map (fun o => (o.1.isOk, o.2.frame.registers[0]?)) =
      some (true, some (.number 42)) := by
    decide +kernel
  obtain ⟨o, hrun, ho⟩ := Option.map_eq_some_iff.mp hvalue
  obtain ⟨hok, hregister⟩ := Prod.ext_iff.mp ho
  have hfree : ∀ f, o.1 = .error f → f.isLimit = false := by
    intro f hf
    dsimp only at hok
    rw [hf] at hok
    cases hok
  obtain ⟨o', hrun', hend⟩ := hruns hhosts 9 none o hrun hfree
  exact ⟨o, o', hrun, hrun', hend.result, (hend.registers 0 (by decide)).trans hregister⟩

end ContractVM
