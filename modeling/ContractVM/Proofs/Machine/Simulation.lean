import ContractVM.Proofs.Machine.Isolation
import ContractVM.Proofs.Machine.Matches
import ContractVM.Proofs.Machine.Rows
import ContractVM.Proofs.Machine.Site

/-! # Simulations

    When two machines match and what they read next matches, then their steps match, and so do
    whole runs.  What has to be known of the code is gathered in `Simulation`:

    * **Reading**: places that belong together hold the same instruction, or nothing that
      could be read, or one of them is the end of its code and the other holds a `RET`.
    * **Steps** of such machines are taken one for one, so that each run is as long as the
      other.
    * **Host functions may remember**: rows of steps are taken alike with host functions of their
      own at each step, and so are the runs that end behind them. -/

namespace ContractVM

variable {Ω : Type}

/-! ## Section 1: What has to be known of the code -/

/-- What is read at two places matches, and leads to places that belong together. -/
inductive ReadsMatch (R : Context × Nat → Context × Nat → Prop) (p p' : Context × Nat) : Prop where
  /-- Both are at the end of their code. -/
  | ends (h : p.1.code.size ≤ p.2) (h' : p'.1.code.size ≤ p'.2)
  /-- One is at the end of its code, and the other before a `RET`. -/
  | returns {next : Nat} (h : p.1.code.size ≤ p.2) (h' : p'.2 < p'.1.code.size)
    (hread' : Reader.instr p'.1.code p'.2 = .ok (⟨.ret, ()⟩, next)) (hnext : R p (p'.1, next))
  /-- Both hold the same instruction. -/
  | reads {i : Instr UInt32} {next next' : Nat} (hoffset : p.2 = p'.2) (h : p.2 < p.1.code.size)
    (h' : p'.2 < p'.1.code.size) (hread : Reader.instr p.1.code p.2 = .ok (i, next))
    (hread' : Reader.instr p'.1.code p'.2 = .ok (i, next')) (hnext : R (p.1, next) (p'.1, next'))
    (htargets : ∀ target, i.target? = some target → Machine.TargetMatches R p.1 p'.1 target)
  /-- Both hold nothing that could be read. -/
  | misreads {f : CodeFault} (hoffset : p.2 = p'.2) (h : p.2 < p.1.code.size)
    (h' : p'.2 < p'.1.code.size) (hread : Reader.instr p.1.code p.2 = .error f)
    (hread' : Reader.instr p'.1.code p'.2 = .error f)

/-- The same code is read alike, and its targets lead to the same offset or beyond it. -/
theorem ReadsMatch.of_code {R : Context × Nat → Context × Nat → Prop} {p p' : Context × Nat}
    (hcode : p.1.code = p'.1.code) (hoffset : p.2 = p'.2)
    (hplaces : ∀ n, R (p.1, n) (p'.1, n)) : ReadsMatch R p p' := by
  by_cases hend : p.1.code.size ≤ p.2
  · exact .ends hend (by rwa [← hcode, ← hoffset])
  · have hin : p.2 < p.1.code.size := Nat.lt_of_not_le hend
    have hin' : p'.2 < p'.1.code.size := by rwa [← hcode, ← hoffset]
    cases hread : Reader.instr p.1.code p.2 with
    | error f => exact .misreads hoffset hin hin' hread (by rwa [← hcode, ← hoffset])
    | ok read =>
      obtain ⟨i, next⟩ := read
      have hread' : Reader.instr p'.1.code p'.2 = .ok (i, next) := by rwa [← hcode, ← hoffset]
      refine .reads hoffset hin hin' hread hread' (hplaces next) ?_
      intro target _
      by_cases htarget : target.toNat ≤ p.1.code.size
      · exact .inside htarget (by rwa [← hcode]) (hplaces target.toNat)
      · exact .outside (Nat.lt_of_not_le htarget) (by rw [hcode])

/-- A pairing `K` of contexts and a relation `R` of places that machines cannot tell apart. -/
structure Simulation (config : Config) (K : Context → Context → Prop)
    (R : Context × Nat → Context × Nat → Prop) : Prop where
  pairing : Context.Pairing K
  check : ∀ {c c'}, K c c' → config.checkContext c = config.checkContext c'
  enter : ∀ {c c'}, K c c' → R (c, 0) (c', 0)
  context : ∀ {p p'}, R p p' → K p.1 p'.1
  reads : ∀ {p p'}, R p p' → ReadsMatch R p p'

/-! ## Section 2: Instructions -/

section Heap

variable [HostData Ω] {K : Context → Context → Prop} {h h' : Heap Ω}

theorem Question.answer_eq (hK : Context.Pairing K) (hheap : h.MatchesBy K h') (q : Question)
    (instruction : String) : q.answer h instruction = q.answer h' instruction := by
  cases q with
  | count v =>
    dsimp only [answer]
    rw [hheap.count_eq]
  | equal v w =>
    dsimp only [answer]
    rw [hheap.equal_eq hK]
  | get container key => exact hheap.get_eq hK container key instruction

theorem Product.make_matches {env env' : Env Ω} (hregistry : env.registry.Matches K env'.registry)
    (hheap : h.MatchesBy K h') (p : Product) (instruction : String) :
    Except.Rel (Heap.Holds K) (p.make env h instruction) (p.make env' h' instruction) := by
  cases p with
  | copy v => exact hheap.deepCopy v instruction
  | cast v type => exact hheap.cast v type instruction
  | handle name =>
    refine (hregistry.resolve name).bind ?_
    intro c c' hc
    obtain ⟨href, hheap'⟩ := hheap.addObject (.context hc)
    exact .ok ⟨congrArg Value.object href, hheap'⟩

end Heap

namespace Machine

variable [HostData Ω] {K : Context → Context → Prop} {R : Context × Nat → Context × Nat → Prop}
  {env env' : Env Ω} {m m' : Machine Ω}

omit [HostData Ω] in
theorem Matches.hostName_eq (h : m.Matches K R m') (target : Target) :
    m.hostName target = m'.hostName target := by
  cases target with
  | named name => rfl
  | register index => exact h.stringIn_eq _ index

omit [HostData Ω] in
theorem Matches.noteCall (h : m.Matches K R m') (env env' : Env Ω) (name : String) :
    (m.noteCall env name).Matches K R (m'.noteCall env' name) := by
  obtain ⟨journal, hnote⟩ := m.noteCall_eq env name
  obtain ⟨journal', hnote'⟩ := m'.noteCall_eq env' name
  rw [hnote, hnote']
  exact h.withJournals journal journal'

/-- A host function is called alike, and its verdict obeyed. -/
theorem Matches.extCall (hsim : Simulation env.config K R) (henv : env.Matches K env')
    (h : m.Matches K R m') (hrun : m.status = .running) (target : Target) :
    OutcomesMatch K R (m.exec env ⟨.extCall, (target, ())⟩)
      (m'.exec env' ⟨.extCall, (target, ())⟩) := by
  rw [exec_extCall, exec_extCall]
  unfold callee
  rw [h.hostName_eq]
  cases m'.hostName target with
  | error f => exact h.unchanged (.error f)
  | ok name =>
    have hfind := henv.interops name
    dsimp only
    generalize env.interops.find? name = o, env'.interops.find? name = o' at hfind
    cases hfind with
    | none => exact h.unchanged (.error (.unknownInterop name))
    | @some p p' hp =>
      have hrun' : (m.noteCall env name).status = .running := by
        obtain ⟨journal, hnote⟩ := m.noteCall_eq env name
        rw [hnote]
        exact hrun
      have hhost := (h.noteCall env env' name).run hsim.pairing hsim.context henv hp hrun'
      obtain ⟨r, m₁, m₁', hcall, hcall', h₁⟩ := hhost.exists_eq
      dsimp only
      rw [hcall, hcall']
      cases r with
      | error f => exact h₁.unchanged (.error f)
      | ok verdict =>
        cases verdict with
        | resume => exact h₁.unchanged (.ok ())
        | halt => exact ⟨rfl, h₁.halt⟩
        | fault => exact h₁.unchanged (.error (.interopFault name "host reported a fault"))

/-- Work is done alike.  The cases are the kinds of work. -/
theorem Matches.works (hsim : Simulation env.config K R) (henv : env.Matches K env')
    (h : m.Matches K R m') {i : Instr UInt32}
    (htargets : ∀ target, i.target? = some target →
      TargetMatches R m.frame.context m'.frame.context target)
    {known : List Value} {w : Work Ω} (hw : Works i known w) :
    OutcomesMatch K R (w env m) (w env' m') := by
  have hconfig := henv.config
  induction hw with
  | ends => exact h.unchanged _
  | reads index _ ih =>
    dsimp only
    rw [h.register_eq]
    cases m'.register index with
    | error f => exact h.unchanged (.error f)
    | ok v => exact ih v
  | @sets _ changes => exact ⟨rfl, h.setRegisters changes⟩
  | @asks _ dst _ q instruction => exact h.store dst (q.answer_eq hsim.pairing h.heap instruction)
  | @makes _ dst _ p _ _ instruction =>
    exact h.storeWithHeap dst (p.make_matches henv.registry h.heap instruction)
  | @pushes _ src =>
    dsimp only
    rw [← hconfig]
    exact h.pushRegister env.config src
  | @pops _ dst _ instruction => exact h.popRegister instruction dst
  | @puts _ value container key _ instruction =>
    exact h.putEntry hsim.pairing instruction value container key
  | jumps htarget => exact h.jump (htargets _ htarget)

/-- Every instruction is executed alike. -/
theorem Matches.exec (hsim : Simulation env.config K R) (henv : env.Matches K env')
    (h : m.Matches K R m') (hrun : m.status = .running) {i : Instr UInt32}
    (htargets : ∀ target, i.target? = some target →
      TargetMatches R m.frame.context m'.frame.context target) :
    OutcomesMatch K R (m.exec env i) (m'.exec env' i) := by
  have hconfig := henv.config
  cases exec_does (Ω := Ω) i with
  | works hw => exact h.works hsim henv htargets hw
  | calls target hi =>
    subst hi
    show OutcomesMatch K R (m.callTarget env.config target) (m'.callTarget env'.config target)
    rw [← hconfig]
    exact h.callTarget env.config (htargets target rfl)
  | returns hi =>
    subst hi
    exact ⟨rfl, h.leave⟩
  | switches handle hi =>
    subst hi
    show OutcomesMatch K R (m.switchContext env.config _ handle)
      (m'.switchContext env'.config _ handle)
    rw [← hconfig]
    exact h.switchContext hsim.check hsim.enter _ handle
  | callsHost target hi =>
    subst hi
    exact Matches.extCall hsim henv h hrun target

/-! ## Section 3: Steps -/

/-- Steps are taken alike. -/
theorem Matches.step (hsim : Simulation env.config K R) (henv : env.Matches K env')
    (h : m.Matches K R m') (hrun : m.status = .running) :
    OutcomesMatch K R (m.step env) (m'.step env') := by
  have hrun' : m'.status = .running := h.status.symm.trans hrun
  -- the machine goes on from the place behind an instruction
  have hmoves : ∀ {next next' journal journal'},
      R (m.frame.context, next) (m'.frame.context, next') →
      ({ m with frame := { m.frame with ip := next }, offset := m.frame.ip, journal } :
        Machine Ω).Matches K R
        { m' with frame := { m'.frame with ip := next' }, offset := m'.frame.ip,
                  journal := journal' } := by
    intro next next' journal journal' hnext
    exact ⟨⟨h.frame.registers, hnext⟩, h.callers, h.stack, h.status, h.faultSite, h.heap⟩
  cases hsim.reads h.frame.place with
  | ends hend hend' =>
    rw [m.step_of_atEnd hend, m'.step_of_atEnd hend']
    exact ⟨rfl, h.leave⟩
  | @returns next hend hend' hread' hnext =>
    obtain ⟨journal', hfetch'⟩ := fetch_of_read env' (m := m') hread'
    rw [m.step_of_atEnd hend, step_of_fetch (decide_eq_false (Nat.not_le.mpr hend')) hfetch']
    have hbehind : m.Matches K R { m' with
        frame := { m'.frame with ip := next }, offset := m'.frame.ip, journal := journal' } :=
      ⟨⟨h.frame.registers, hnext⟩, h.callers, h.stack, h.status, h.faultSite, h.heap⟩
    exact ⟨rfl, hbehind.leave⟩
  | reads _ hend hend' hread hread' hnext htargets =>
    obtain ⟨journal, hfetch⟩ := fetch_of_read env (m := m) hread
    obtain ⟨journal', hfetch'⟩ := fetch_of_read env' (m := m') hread'
    rw [step_of_fetch (decide_eq_false (Nat.not_le.mpr hend)) hfetch,
      step_of_fetch (decide_eq_false (Nat.not_le.mpr hend')) hfetch']
    exact (hmoves hnext).exec hsim henv hrun htargets
  | misreads _ hend hend' hread hread' =>
    obtain ⟨journal, hfetch⟩ := fetch_of_misread env (m := m) hread
    obtain ⟨journal', hfetch'⟩ := fetch_of_misread env' (m := m') hread'
    rw [step_of_fetch_error (decide_eq_false (Nat.not_le.mpr hend)) hfetch,
      step_of_fetch_error (decide_eq_false (Nat.not_le.mpr hend')) hfetch']
    exact ⟨rfl, hmoves h.frame.place⟩

/-- Both machines are at work inside their code, at the same offset of places that belong
    together. -/
def WorkAlike (R : Context × Nat → Context × Nat → Prop) (m m' : Machine Ω) : Prop :=
  ∃ p p', R p p' ∧ p.2 = p'.2 ∧ p.2 < p.1.code.size ∧ m.WorksAt p ∧ m'.WorksAt p'

/-- Steps that fault do so at the same offset. -/
theorem Matches.step_fault (hsim : Simulation env.config K R) (henv : env.Matches K env')
    (h : m.Matches K R m') (hrun : m.status = .running) {f : Fault}
    (hfault : (m.step env).1 = .error f) : WorkAlike R (m.step env).2 (m'.step env').2 := by
  have hrun' : m'.status = .running := h.status.symm.trans hrun
  have hfault' : (m'.step env').1 = .error f := (h.step hsim henv hrun).result.symm.trans hfault
  have hplace : m.frame.ip = m'.frame.ip ∧ m.frame.ip < m.frame.context.code.size := by
    cases hsim.reads h.frame.place with
    | ends hend _ =>
      rw [m.step_of_atEnd hend] at hfault
      cases hfault
    | returns hend _ _ _ =>
      rw [m.step_of_atEnd hend] at hfault
      cases hfault
    | reads hoffset hend _ _ _ _ _ => exact ⟨hoffset, hend⟩
    | misreads hoffset hend _ _ _ => exact ⟨hoffset, hend⟩
  exact ⟨_, _, h.frame.place, hplace.1, hplace.2, worksAt_of_step hrun hfault,
    worksAt_of_step hrun' hfault'⟩

end Machine

/-! ## Section 4: Runs with host functions that may remember -/

theorem Env.Matches.withInterops {K : Context → Context → Prop} {env env' : Env Ω}
    (henv : env.Matches K env') {t t' : InteropTable Ω} (ht : t.Matches K t') :
    (env.withInterops t).Matches K (env'.withInterops t') :=
  ⟨henv.config, henv.entry, henv.registry, ht⟩

/-- Sites are at the same place, whatever their lines are. -/
def FaultSite.SamePlace (s s' : FaultSite) : Prop :=
  s.context = s'.context ∧ s.offset = s'.offset

namespace Machine

variable [HostData Ω]

variable {K : Context → Context → Prop} {R : Context × Nat → Context × Nat → Prop}
  {env env' : Env Ω} {m m' : Machine Ω}

/-- Stretches of runs are taken alike, step by step. -/
theorem StaysAbove.alongside (hsim : Simulation env.config K R) (henv : env.Matches K env')
    {tables tables' : List (InteropTable Ω)}
    (htables : List.Forall₂ (InteropTable.Matches K) tables tables') {m₁ : Machine Ω}
    (hstays : StaysAbove 0 m (tables.map env.withInterops) m₁) (h : m.Matches K R m') :
    ∃ m₁', StaysAbove 0 m' (tables'.map env'.withInterops) m₁' ∧ m₁.Matches K R m₁' := by
  induction htables generalizing m₁ with
  | nil =>
    cases hstays
    exact ⟨m', .refl, h⟩
  | @cons t t' tables tables' ht _ ih =>
    cases hstays with
    | @tail _ _ m₂ _ hstays hrun hstep _ =>
      have hsim₁ : Simulation (env.withInterops t).config K R := hsim
      obtain ⟨m₂', hstays', h₂⟩ := ih hstays
      have hnext := h₂.step hsim₁ (henv.withInterops ht) hrun
      rw [hstep] at hnext
      refine ⟨_, hstays'.tail (h₂.status.symm.trans hrun) ?_ (Nat.zero_le _), hnext.machine⟩
      exact Prod.ext hnext.result.symm rfl

/-- Whole runs are taken alike: if one does not end within the steps given, neither does the
    other, and if they fault, they do so at the same offset. -/
theorem Matches.stepsWith (hsim : Simulation env.config K R) (henv : env.Matches K env')
    {hosts hosts' : Nat → InteropTable Ω} (hhosts : ∀ n, (hosts n).Matches K (hosts' n))
    (fuel : Nat) (h : m.Matches K R m') :
    Option.Rel (fun o o' => OutcomesMatch K R o o' ∧
        ∀ f, o.1 = .error f → WorkAlike R o.2 o'.2)
      (stepsWith env hosts fuel m) (stepsWith env' hosts' fuel m') := by
  cases hrun : Machine.stepsWith env hosts fuel m with
  | none =>
    obtain ⟨m₁, hrow⟩ := stepsWith_eq_none_iff.mp hrun
    obtain ⟨m₁', hrow', -⟩ := hrow.alongside hsim henv (forall₂_upTo hhosts fuel) h
    rw [stepsWith_eq_none_iff.mpr ⟨m₁', hrow'⟩]
    exact .none
  | some o =>
    obtain ⟨n, hn, hends⟩ := stepsWith_eq_some_iff.mp hrun
    cases hends with
    | @halts m₁ hrow hhalt =>
      obtain ⟨m₁', hrow', h₁⟩ := hrow.alongside hsim henv (forall₂_upTo hhosts n) h
      have hhalt' : m₁'.status ≠ .running := fun hrun' => hhalt (h₁.status.trans hrun')
      rw [(EndsAfter.halts hrow' hhalt').stepsWith_eq hn]
      exact .some ⟨h₁.unchanged (.ok ()), fun f hf => nomatch hf⟩
    | @faults m₁ m₂ f hrow hrun₁ hstep =>
      obtain ⟨m₁', hrow', h₁⟩ := hrow.alongside hsim henv (forall₂_upTo hhosts n) h
      have hsim₁ : Simulation (env.withInterops (hosts n)).config K R := hsim
      have henv₁ := henv.withInterops (hhosts n)
      have hnext := h₁.step hsim₁ henv₁ hrun₁
      have hfault := fun f => h₁.step_fault hsim₁ henv₁ hrun₁ (f := f)
      rw [hstep] at hnext hfault
      obtain ⟨r, m₃, m₃', heq, hstep', h₃⟩ := hnext.exists_eq
      cases heq
      rw [hstep'] at hfault
      rw [(EndsAfter.faults hrow' (h₁.status.symm.trans hrun₁) hstep').stepsWith_eq hn]
      exact .some ⟨⟨rfl, h₃⟩, hfault⟩

/-! ## Section 5: Ends of runs -/

/-- Runs end alike if they have the same result and leave the same values, in contexts that
    are counterparts; sites of faults are related by `L`. -/
structure EndsMatch (K : Context → Context → Prop) (L : FaultSite → FaultSite → Prop)
    (o o' : Outcome Ω Unit) : Prop where
  result : o.1 = o'.1
  status : o.2.status = o'.2.status
  stack : o.2.stack = o'.2.stack
  registers : o.2.frame.registers = o'.2.frame.registers
  depth : o.2.depth = o'.2.depth
  context : K o.2.frame.context o'.2.frame.context
  heap : o.2.heap.MatchesBy K o'.2.heap
  site : Option.Rel L o.2.faultSite o'.2.faultSite

variable {L : FaultSite → FaultSite → Prop}

omit [HostData Ω] in
/-- A fault is noted with the sites of both machines. -/
theorem Matches.finish_error (hsim : Simulation env.config K R) (h : m.Matches K R m') (f : Fault)
    (hsite : L m.site m'.site) : EndsMatch K L (finish (.error f, m)) (finish (.error f, m')) where
  result := rfl
  status := rfl
  stack := h.stack
  registers := h.frame.registers
  depth := rfl
  context := hsim.context h.frame.place
  heap := h.heap
  site := .some hsite

omit [HostData Ω] in
theorem Matches.finish_ok (hsim : Simulation env.config K R) (hrefl : ∀ s, L s s)
    (h : m.Matches K R m') : EndsMatch K L (finish (.ok (), m)) (finish (.ok (), m')) where
  result := rfl
  status := rfl
  stack := h.stack
  registers := h.frame.registers
  depth := h.depth_eq
  context := hsim.context h.frame.place
  heap := h.heap
  site := by
    show Option.Rel L m.faultSite m'.faultSite
    rw [← h.faultSite]
    cases m.faultSite with
    | none => exact .none
    | some s => exact .some (hrefl s)

/-- Runs of machines that match end alike, if the sites of places inside the code are
    related. -/
theorem Matches.ends (hsim : Simulation env.config K R) (henv : env.Matches K env')
    {hosts hosts' : Nat → InteropTable Ω} (hhosts : ∀ n, (hosts n).Matches K (hosts' n))
    (hrefl : ∀ s, L s s)
    (hsite : ∀ {p p'}, R p p' → p.2 = p'.2 → p.2 < p.1.code.size →
      L (p.1.siteAt p.2) (p'.1.siteAt p'.2))
    (fuel : Nat) (h : m.Matches K R m') :
    Option.Rel (EndsMatch K L) ((Machine.stepsWith env hosts fuel m).map finish)
      ((Machine.stepsWith env' hosts' fuel m').map finish) := by
  have hsteps := h.stepsWith hsim henv hhosts fuel
  generalize Machine.stepsWith env hosts fuel m = o,
    Machine.stepsWith env' hosts' fuel m' = o' at hsteps
  cases hsteps with
  | none => exact .none
  | @some o o' hends =>
    obtain ⟨hmatch, hfault⟩ := hends
    obtain ⟨r, m₁, m₁', rfl, rfl, h₁⟩ := hmatch.exists_eq
    cases r with
    | ok _ => exact .some (h₁.finish_ok hsim hrefl)
    | error f =>
      obtain ⟨p, p', hp, hoffset, hin, hat, hat'⟩ := hfault f rfl
      refine .some (h₁.finish_error hsim f ?_)
      rw [hat.site_eq, hat'.site_eq]
      exact hsite hp hoffset hin

omit [HostData Ω] in
/-- Machines with the same stack start alike. -/
theorem matches_start (henv : env.Matches K env') (hstack : m.stack = m'.stack)
    (hheap : m.heap.MatchesBy K m'.heap) {n : Nat} (hplace : R (env.entry, n) (env'.entry, n)) :
    (m.start env n).Matches K R (m'.start env' n) := by
  refine ⟨⟨?_, hplace⟩, .nil, hstack, rfl, rfl, hheap⟩
  show Array.replicate env.config.registers Value.none = Array.replicate env'.config.registers .none
  rw [henv.config]

/-- Runs of counterparts end alike.  If the entry is barred, its site counts, too. -/
theorem runFromWith_alike (hsim : Simulation env.config K R) (henv : env.Matches K env')
    {hosts hosts' : Nat → InteropTable Ω} (hhosts : ∀ n, (hosts n).Matches K (hosts' n))
    (hrefl : ∀ s, L s s)
    (hsite : ∀ {p p'}, R p p' → p.2 = p'.2 → p.2 < p.1.code.size →
      L (p.1.siteAt p.2) (p'.1.siteAt p'.2))
    (hidle : m.status ≠ .running) (hidle' : m'.status ≠ .running) (hstack : m.stack = m'.stack)
    (hheap : m.heap.MatchesBy K m'.heap) {method : Option String} {n : Nat}
    (hentry : env.entryOffset? method = some n) (hentry' : env'.entryOffset? method = some n)
    (hn : n ≤ env.entry.code.size) (hn' : n ≤ env'.entry.code.size)
    (hplace : R (env.entry, n) (env'.entry, n))
    (hbarred : ∀ f, env.config.checkContext env.entry = .error f →
      L (env.entry.siteAt n) (env'.entry.siteAt n)) (fuel : Nat) :
    Option.Rel (EndsMatch K L) (m.runFromWith env hosts fuel method)
      (m'.runFromWith env' hosts' fuel method) := by
  have hstart := matches_start henv hstack hheap hplace
  have hcheck := m.checkStart_start_eq hn
  have hcheck' := m'.checkStart_start_eq hn'
  rw [← henv.config, ← hsim.check henv.entry] at hcheck'
  unfold runFromWith
  rw [requestRun_of_entry hidle hentry, requestRun_of_entry hidle' hentry']
  dsimp only
  rw [hcheck, hcheck']
  cases hc : env.config.checkContext env.entry with
  | error f => exact .some (hstart.finish_error hsim f (hbarred f hc))
  | ok _ => exact hstart.ends hsim henv hhosts hrefl hsite fuel

end Machine

end ContractVM
