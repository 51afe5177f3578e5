import ContractVM.Proofs.Heap.Matches
import ContractVM.Proofs.Machine.Interop
import Mathlib.Data.List.Forall2

/-! # Machines that match

    Two machines match if they hold the same values, and stand in frames whose places belong
    together: a relation `K` pairs the contexts, and a relation `R` the places in their code.

    * **Operations** that match are done alike by machines that match: they have the same
      result, and leave machines that match.
    * **Host programs** that do not look into scripts go on alike when they are shown
      counterparts.  `HostProgram.Matches` says so of two programs, since a program that
      supplies a context is not the same program as one that supplies its counterpart. -/

namespace ContractVM

variable {Ω α : Type}

/-! ## Section 1: What matches -/

/-- The registries have the same names, and counterparts under each name. -/
structure Registry.Matches (K : Context → Context → Prop) (r r' : Registry) : Prop where
  names : r.names = r'.names
  find : ∀ name, Option.Rel K (r.find? name) (r'.find? name)

/-- Frames match if they hold the same values, at places that belong together. -/
structure Frame.Matches (R : Context × Nat → Context × Nat → Prop) (f f' : Frame) : Prop where
  registers : f.registers = f'.registers
  place : R (f.context, f.ip) (f'.context, f'.ip)

/-- Machines match if they are doing the same, in frames that match and with the same values.
    What they note in their journals does not matter. -/
structure Machine.Matches (K : Context → Context → Prop)
    (R : Context × Nat → Context × Nat → Prop) (m m' : Machine Ω) : Prop where
  frame : m.frame.Matches R m'.frame
  callers : List.Forall₂ (Frame.Matches R) m.callers m'.callers
  stack : m.stack = m'.stack
  status : m.status = m'.status
  faultSite : m.faultSite = m'.faultSite
  heap : m.heap.MatchesBy K m'.heap

/-- The outcomes have the same result, and leave machines that match. -/
structure OutcomesMatch (K : Context → Context → Prop)
    (R : Context × Nat → Context × Nat → Prop) (o o' : Outcome Ω α) : Prop where
  result : o.1 = o'.1
  machine : o.2.Matches K R o'.2

/-- Host functions see the same, but for counterparts. -/
structure View.Matches (K : Context → Context → Prop) (v v' : View Ω) : Prop where
  config : v.config = v'.config
  registry : v.registry.Matches K v'.registry
  context : K v.context v'.context
  registers : v.registers = v'.registers
  depth : v.depth = v'.depth
  stack : v.stack = v'.stack
  status : v.status = v'.status
  faultSite : v.faultSite = v'.faultSite
  heap : v.heap.MatchesBy K v'.heap

/-- Actions match if they are the same, or supply objects that match. -/
inductive HostAction.Matches (K : Context → Context → Prop) :
    HostAction Ω → HostAction Ω → Prop where
  | newObject {x x' : HostObject Ω} (h : x.Matches K x') : Matches K (.newObject x) (.newObject x')
  | setObject (r : ObjectRef) {x x' : HostObject Ω} (h : x.Matches K x') :
    Matches K (.setObject r x) (.setObject r x')
  | same {action : HostAction Ω} (hnew : ∀ x, action ≠ .newObject x)
    (hset : ∀ r x, action ≠ .setObject r x) : Matches K action action

/-- Programs match if they take actions that match, as long as they see the same but for
    counterparts. -/
inductive HostProgram.Matches (K : Context → Context → Prop) :
    HostProgram Ω α → HostProgram Ω α → Prop where
  | reply (a : α) : Matches K (.reply a) (.reply a)
  | fail (f : Fault) : Matches K (.fail f) (.fail f)
  | look {next next' : View Ω → HostProgram Ω α}
    (h : ∀ v v', v.Matches K v' → Matches K (next v) (next' v')) :
    Matches K (.look next) (.look next')
  | act {action action' : HostAction Ω} {next next' : Except Fault Value → HostProgram Ω α}
    (haction : action.Matches K action') (h : ∀ answer, Matches K (next answer) (next' answer)) :
    Matches K (.act action next) (.act action' next')

/-- The tables have the same names, and programs that match under each name. -/
def InteropTable.Matches (K : Context → Context → Prop) (t t' : InteropTable Ω) : Prop :=
  ∀ name, Option.Rel (HostProgram.Matches K) (t.find? name) (t'.find? name)

/-- The environments have the same limits, and counterparts everywhere. -/
structure Env.Matches (K : Context → Context → Prop) (env env' : Env Ω) : Prop where
  config : env.config = env'.config
  entry : K env.entry env'.entry
  registry : env.registry.Matches K env'.registry
  interops : env.interops.Matches K env'.interops

variable {K : Context → Context → Prop} {R : Context × Nat → Context × Nat → Prop}

theorem Registry.Matches.resolve {r r' : Registry} (h : r.Matches K r') (name : String) :
    Except.Rel K (r.resolve name) (r'.resolve name) := by
  have hfind := h.find name
  unfold Registry.resolve
  generalize r.find? name = o, r'.find? name = o' at hfind
  cases hfind with
  | none => exact .error _
  | some hc => exact .ok hc

theorem Registry.Matches.refl (hK : ∀ c, K c c) (r : Registry) : r.Matches K r where
  names := rfl
  find := by
    intro name
    cases r.find? name with
    | none => exact .none
    | some c => exact .some (hK c)

theorem OutcomesMatch.exists_eq {o o' : Outcome Ω α} (h : OutcomesMatch K R o o') :
    ∃ r m m', o = (r, m) ∧ o' = (r, m') ∧ m.Matches K R m' :=
  ⟨o.1, o.2, o'.2, rfl, Prod.ext h.result.symm rfl, h.machine⟩

/-- An operation without a result answers alike. -/
theorem OutcomesMatch.answer {o o' : Outcome Ω Unit} (h : OutcomesMatch K R o o') :
    OutcomesMatch K R (Machine.answer o) (Machine.answer o') where
  result := by
    show o.1.map _ = o'.1.map _
    rw [h.result]
  machine := h.machine

namespace Machine

variable {m m' : Machine Ω}

/-! ## Section 2: Registers and the stack -/

theorem Matches.depth_eq (h : m.Matches K R m') : m.depth = m'.depth := by
  unfold depth
  rw [h.callers.length_eq]

theorem Matches.register_eq (h : m.Matches K R m') (index : UInt8) :
    m.register index = m'.register index := by
  unfold register
  rw [h.frame.registers]

theorem Matches.stringIn_eq (h : m.Matches K R m') (instruction : String) (index : UInt8) :
    m.stringIn instruction index = m'.stringIn instruction index := by
  unfold stringIn
  rw [h.register_eq]

/-- The same result, and nothing else has happened. -/
theorem Matches.unchanged (h : m.Matches K R m') (r : Except Fault α) :
    OutcomesMatch K R (r, m) (r, m') :=
  ⟨rfl, h⟩

theorem Matches.setRegister (h : m.Matches K R m') (index : UInt8) (v : Value) :
    (m.setRegister index v).Matches K R (m'.setRegister index v) where
  frame :=
    ⟨congrArg (fun registers => registers.setIfInBounds index.toNat v) h.frame.registers,
      h.frame.place⟩
  callers := h.callers
  stack := h.stack
  status := h.status
  faultSite := h.faultSite
  heap := h.heap

theorem Matches.setRegisters (h : m.Matches K R m') (changes : List (UInt8 × Value)) :
    (m.setRegisters changes).Matches K R (m'.setRegisters changes) := by
  induction changes generalizing m m' with
  | nil => exact h
  | cons change changes ih => exact ih (h.setRegister change.1 change.2)

theorem Matches.withHeap (h : m.Matches K R m') {heap heap' : Heap Ω}
    (hheap : heap.MatchesBy K heap') :
    ({ m with heap } : Machine Ω).Matches K R { m' with heap := heap' } :=
  ⟨h.frame, h.callers, h.stack, h.status, h.faultSite, hheap⟩

theorem Matches.withStack (h : m.Matches K R m') (stack : Array Value) :
    ({ m with stack } : Machine Ω).Matches K R { m' with stack } :=
  ⟨h.frame, h.callers, rfl, h.status, h.faultSite, h.heap⟩

theorem Matches.withJournals (h : m.Matches K R m') (journal journal' : Array LogEntry) :
    ({ m with journal } : Machine Ω).Matches K R { m' with journal := journal' } :=
  ⟨h.frame, h.callers, h.stack, h.status, h.faultSite, h.heap⟩

theorem Matches.halt (h : m.Matches K R m') :
    ({ m with status := .halt } : Machine Ω).Matches K R { m' with status := .halt } :=
  ⟨h.frame, h.callers, h.stack, rfl, h.faultSite, h.heap⟩

theorem Matches.assign (h : m.Matches K R m') (index : UInt8) (v : Value) :
    OutcomesMatch K R (m.assign index v) (m'.assign index v) := by
  unfold Machine.assign
  rw [h.register_eq]
  split
  · exact ⟨rfl, h.setRegister index v⟩
  · exact h.unchanged _

theorem Matches.store (h : m.Matches K R m') (index : UInt8) {r r' : Except Fault Value}
    (hr : r = r') : OutcomesMatch K R (m.store index r) (m'.store index r') := by
  subst hr
  cases r with
  | error f => exact h.unchanged (.error f)
  | ok v => exact h.assign index v

theorem Matches.storeWithHeap (h : m.Matches K R m') (index : UInt8)
    {r r' : Except Fault (Value × Heap Ω)} (hr : Except.Rel (Heap.Holds K) r r') :
    OutcomesMatch K R (m.storeWithHeap index r) (m'.storeWithHeap index r') := by
  cases hr with
  | error f => exact h.unchanged (.error f)
  | @ok p p' hp =>
    obtain ⟨v, heap⟩ := p
    obtain ⟨v', heap'⟩ := p'
    obtain ⟨rfl, hheap⟩ : v = v' ∧ heap.MatchesBy K heap' := hp
    unfold Machine.storeWithHeap
    rw [h.register_eq]
    cases m'.register index with
    | error f => exact h.unchanged (.error f)
    | ok w => exact ⟨rfl, (h.setRegister index v).withHeap hheap⟩

theorem Matches.push (h : m.Matches K R m') (config : Config) (v : Value) :
    OutcomesMatch K R (m.push config v) (m'.push config v) := by
  unfold Machine.push
  rw [h.stack]
  split
  · exact ⟨rfl, h.withStack _⟩
  · exact h.unchanged _

theorem Matches.pop (h : m.Matches K R m') (instruction : String) :
    OutcomesMatch K R (m.pop instruction) (m'.pop instruction) := by
  unfold Machine.pop
  rw [h.stack]
  split
  · exact ⟨rfl, h.withStack _⟩
  · exact h.unchanged _

theorem Matches.pushRegister (h : m.Matches K R m') (config : Config) (src : UInt8) :
    OutcomesMatch K R (m.pushRegister config src) (m'.pushRegister config src) := by
  unfold Machine.pushRegister
  rw [h.register_eq]
  split
  · exact h.unchanged _
  · exact h.push config _

theorem Matches.popRegister (h : m.Matches K R m') (instruction : String) (dst : UInt8) :
    OutcomesMatch K R (m.popRegister instruction dst) (m'.popRegister instruction dst) := by
  unfold Machine.popRegister
  rw [h.register_eq]
  split
  · exact h.unchanged _
  · obtain ⟨r, m₁, m₁', hpop, hpop', h₁⟩ := (h.pop instruction).exists_eq
    rw [hpop, hpop']
    cases r with
    | error f => exact h₁.unchanged (.error f)
    | ok v => exact ⟨rfl, h₁.setRegister dst v⟩

/-! ## Section 3: Frames -/

/-- Frames are left alike. -/
theorem Matches.leave (h : m.Matches K R m') : m.leave.Matches K R m'.leave := by
  have hcallers := h.callers
  unfold Machine.leave
  generalize m.callers = callers, m'.callers = callers' at hcallers
  cases hcallers with
  | nil => exact ⟨h.frame, .nil, h.stack, rfl, h.faultSite, h.heap⟩
  | cons hcaller hrest =>
    -- whether the return is noted does not matter
    dsimp only
    split
    · split
      · exact ⟨hcaller, hrest, h.stack, h.status, h.faultSite, h.heap⟩
      · exact ⟨hcaller, hrest, h.stack, h.status, h.faultSite, h.heap⟩
    · split
      · exact ⟨hcaller, hrest, h.stack, h.status, h.faultSite, h.heap⟩
      · exact ⟨hcaller, hrest, h.stack, h.status, h.faultSite, h.heap⟩

/-- Fresh frames are entered alike, at places that belong together. -/
theorem Matches.enter (h : m.Matches K R m') (config : Config) {c c' : Context} {ip ip' : Nat}
    (hplace : R (c, ip) (c', ip')) :
    OutcomesMatch K R (m.enter config c ip) (m'.enter config c' ip') := by
  unfold Machine.enter
  rw [h.depth_eq]
  split
  · exact h.unchanged _
  · refine ⟨rfl, ⟨rfl, hplace⟩, .cons h.frame h.callers, h.stack, h.status, h.faultSite, h.heap⟩

/-- A target is allowed in both codes and leads to places that belong together, or it is
    beyond both codes, which are of the same size. -/
inductive TargetMatches (R : Context × Nat → Context × Nat → Prop) (c c' : Context)
    (target : UInt32) : Prop where
  | inside (h : target.toNat ≤ c.code.size) (h' : target.toNat ≤ c'.code.size)
    (hplace : R (c, target.toNat) (c', target.toNat))
  | outside (h : c.code.size < target.toNat) (hsize : c.code.size = c'.code.size)

theorem TargetMatches.checkTarget {target : UInt32}
    (h : TargetMatches R m.frame.context m'.frame.context target) :
    Except.Rel (fun ip ip' => R (m.frame.context, ip) (m'.frame.context, ip'))
      (m.checkTarget target) (m'.checkTarget target) := by
  unfold Machine.checkTarget
  cases h with
  | inside h h' hplace =>
    rw [if_pos h, if_pos h']
    exact .ok hplace
  | outside h hsize =>
    rw [← hsize, if_neg (Nat.not_le.mpr h)]
    exact .error _

theorem Matches.jump (h : m.Matches K R m') {target : UInt32}
    (htarget : TargetMatches R m.frame.context m'.frame.context target) :
    OutcomesMatch K R (m.jump target) (m'.jump target) := by
  have hcheck := htarget.checkTarget
  unfold Machine.jump
  generalize m.checkTarget target = r, m'.checkTarget target = r' at hcheck
  cases hcheck with
  | error f => exact h.unchanged (.error f)
  | ok hplace =>
    exact ⟨rfl, ⟨h.frame.registers, hplace⟩, h.callers, h.stack, h.status, h.faultSite, h.heap⟩

theorem Matches.callTarget (h : m.Matches K R m') (config : Config) {target : UInt32}
    (htarget : TargetMatches R m.frame.context m'.frame.context target) :
    OutcomesMatch K R (m.callTarget config target) (m'.callTarget config target) := by
  have hcheck := htarget.checkTarget
  unfold Machine.callTarget
  generalize m.checkTarget target = r, m'.checkTarget target = r' at hcheck
  cases hcheck with
  | error f => exact h.unchanged (.error f)
  | ok hplace => exact h.enter config hplace

/-- A context is entered alike if its counterpart passes the same check. -/
theorem Matches.switchContext (h : m.Matches K R m') {config : Config}
    (hcheck : ∀ {c c'}, K c c' → config.checkContext c = config.checkContext c')
    (henter : ∀ {c c'}, K c c' → R (c, 0) (c', 0)) (instruction : String) (handle : UInt8) :
    OutcomesMatch K R (m.switchContext config instruction handle)
      (m'.switchContext config instruction handle) := by
  have hread : Except.Rel K (do m.heap.asContext (← m.register handle) instruction)
      (do m'.heap.asContext (← m'.register handle) instruction) := by
    rw [h.register_eq]
    cases m'.register handle with
    | error f => exact .error f
    | ok v => exact h.heap.asContext v instruction
  unfold Machine.switchContext
  generalize (do m.heap.asContext (← m.register handle) instruction : Except Fault Context) = r,
    (do m'.heap.asContext (← m'.register handle) instruction : Except Fault Context) = r' at hread
  cases hread with
  | error f => exact h.unchanged (.error f)
  | @ok c c' hc =>
    dsimp only
    rw [hcheck hc]
    split
    · exact (h.withJournals _ _).unchanged _
    · exact (h.withJournals _ _).enter config (henter hc)

/-! ## Section 4: Entries -/

variable [HostData Ω]

theorem Matches.putEntry (h : m.Matches K R m') (hK : Context.Pairing K) (instruction : String)
    (value container key : UInt8) :
    OutcomesMatch K R (m.putEntry instruction value container key)
      (m'.putEntry instruction value container key) := by
  unfold Machine.putEntry
  rw [h.register_eq, h.register_eq, h.register_eq]
  split
  · exact h.unchanged _
  · next v k c _ =>
    obtain ⟨hresult, hcontainer, hheap⟩ := h.heap.put hK c k v instruction
    refine ⟨hresult, ?_⟩
    dsimp only
    rw [hcontainer]
    exact (h.setRegister container _).withHeap hheap

/-! ## Section 5: Host programs -/

omit [HostData Ω] in
/-- What a host function is shown. -/
theorem Matches.view (h : m.Matches K R m') {env env' : Env Ω} (henv : env.Matches K env')
    (hcontext : K m.frame.context m'.frame.context) : (m.view env).Matches K (m'.view env') where
  config := henv.config
  registry := henv.registry
  context := hcontext
  registers := h.frame.registers
  depth := h.depth_eq
  stack := h.stack
  status := h.status
  faultSite := h.faultSite
  heap := h.heap

/-- An action of a host function is done alike. -/
theorem Matches.perform (h : m.Matches K R m') (hK : Context.Pairing K) {env env' : Env Ω}
    (hconfig : env.config = env'.config) (hrun : m.status = .running)
    {action action' : HostAction Ω} (ha : action.Matches K action') :
    OutcomesMatch K R (m.perform env action) (m'.perform env' action') := by
  cases ha with
  | @newObject x x' hx =>
    obtain ⟨href, hheap⟩ := h.heap.addObject hx
    refine ⟨?_, h.withHeap hheap⟩
    show Except.ok (Value.object (m.heap.addObject x).1) = _
    rw [href]
    rfl
  | setObject r hx => exact ⟨rfl, h.withHeap (h.heap.setObject r hx)⟩
  | same hnew hset =>
    cases action with
    | push v =>
      show OutcomesMatch K R (answer (m.push env.config v)) (answer (m'.push env'.config v))
      rw [hconfig]
      exact (h.push env'.config v).answer
    | pop => exact h.pop HostProgram.instruction
    | clearStack => exact ⟨rfl, h.withStack #[]⟩
    | requestRun method =>
      -- refused by both, for they are running
      show OutcomesMatch K R (answer (m.requestRun env method)) (answer (m'.requestRun env' method))
      rw [requestRun_of_running hrun, requestRun_of_running (h.status.symm.trans hrun)]
      exact (h.unchanged (.error .nestedRun)).answer
    | newStruct =>
      obtain ⟨hvalue, hheap⟩ := h.heap.newStruct
      exact ⟨congrArg Except.ok hvalue, h.withHeap hheap⟩
    | put container key value instruction =>
      obtain ⟨hresult, hcontainer, hheap⟩ := h.heap.put hK container key value instruction
      refine ⟨?_, h.withHeap hheap⟩
      show (m.heap.put container key value instruction).result.map _ = _
      rw [hresult, hcontainer]
      rfl
    | insert r key value => exact ⟨rfl, h.withHeap (h.heap.insertEntry hK r key value)⟩
    | deepCopy v instruction =>
      have hcopy := h.heap.deepCopy v instruction
      unfold Machine.perform
      dsimp only
      generalize m.heap.deepCopy v instruction = r, m'.heap.deepCopy v instruction = r' at hcopy
      cases hcopy with
      | error f => exact h.unchanged (.error f)
      | ok hp => exact ⟨congrArg Except.ok hp.1, h.withHeap hp.2⟩
    | cast v t instruction =>
      have hcast := h.heap.cast v t instruction
      unfold Machine.perform
      dsimp only
      generalize m.heap.cast v t instruction = r, m'.heap.cast v t instruction = r' at hcast
      cases hcast with
      | error f => exact h.unchanged (.error f)
      | ok hp => exact ⟨congrArg Except.ok hp.1, h.withHeap hp.2⟩
    | newObject x => exact absurd rfl (hnew x)
    | setObject r x => exact absurd rfl (hset r x)
    | note level text => exact ⟨rfl, h.withJournals _ _⟩

/-- Host programs that match go on alike, and end with the same result. -/
theorem Matches.run (hK : Context.Pairing K) (hcontext : ∀ {p p'}, R p p' → K p.1 p'.1)
    {env env' : Env Ω} (henv : env.Matches K env') {p p' : HostProgram Ω α} (hp : p.Matches K p')
    (h : m.Matches K R m') (hrun : m.status = .running) :
    OutcomesMatch K R (p.run env m) (p'.run env' m') := by
  induction hp generalizing m m' with
  | reply a => exact h.unchanged (.ok a)
  | fail f => exact h.unchanged (.error f)
  | look _ ih => exact ih _ _ (h.view henv (hcontext h.frame.place)) h hrun
  | @act action action' next next' haction _ ih =>
    have hfirst := h.perform hK henv.config hrun haction
    have hrun' : (m.perform env action).2.status = .running :=
      (perform_staysPut env hrun action).status.trans hrun
    show OutcomesMatch K R ((next (m.perform env action).1).run env (m.perform env action).2)
      ((next' (m'.perform env' action').1).run env' (m'.perform env' action').2)
    rw [← hfirst.result]
    exact ih _ hfirst.machine hrun'

end Machine

end ContractVM
