import ContractVM.Proofs.Machine.Registers
import ContractVM.Proofs.Machine.Simulation

/-! # Operations under limits

    Two machines do the same, and the limits of the first are not larger than those of the
    second.  An operation of the first meets a limit, or it is done alike by the second.

    * **Machines**: `ExtendsTo n` says that the second machine is in the same state, and that
      its frames have the same `n` first registers; they may have more.
    * **Results**: `CutShort` and `UnlessLimited` say that the first computation met a limit,
      or ended as the second one did.  Until a limit is met, nothing that is computed depends
      on how far away it is. -/

namespace ContractVM

variable {Ω α β : Type}

/-! ## Section 1: Limits -/

/-- Does the fault say that a limit of the machine was met? -/
def Fault.isLimit : Fault → Bool
  | .stackOverflow _ => true
  | .callDepthExceeded _ => true
  | .invalidRegisterIndex _ _ => true
  | .tooFewRegisters _ _ _ => true
  | _ => false

/-- No limit of the first configuration is larger than that of the second. -/
structure Config.AtMost (config config' : Config) : Prop where
  registers : config.registers ≤ config'.registers
  callDepth : config.callDepth ≤ config'.callDepth
  stackSize : config.stackSize ≤ config'.stackSize

/-- The environment with other limits. -/
def Env.withConfig (env : Env Ω) (config : Config) : Env Ω :=
  { env with config }

/-- The first computation meets a limit, or both are the same. -/
inductive CutShort : Except Fault α → Except Fault α → Prop where
  | limit {f : Fault} {x : Except Fault α} (hf : f.isLimit = true) : CutShort (.error f) x
  | error (f : Fault) : CutShort (.error f) (.error f)
  | ok (a : α) : CutShort (.ok a) (.ok a)

theorem CutShort.same (x : Except Fault α) : CutShort x x := by
  cases x with
  | error f => exact .error f
  | ok a => exact .ok a

/-- Computations of two parts are the same until the first meets a limit. -/
theorem CutShort.bind {x x' : Except Fault α} {f f' : α → Except Fault β} (h : CutShort x x')
    (hnext : ∀ a, CutShort (f a) (f' a)) : CutShort (x >>= f) (x' >>= f') := by
  cases h with
  | limit hf => exact .limit hf
  | error f => exact .error f
  | ok a => exact hnext a

/-- A context that is not allowed misses registers, and one that is allowed may have more. -/
theorem Config.AtMost.checkContext {config config' : Config} (hle : config.AtMost config')
    (c : Context) : CutShort (config.checkContext c) (config'.checkContext c) := by
  have hregisters := hle.registers
  unfold Config.checkContext
  by_cases hbarred : (!c.script.methods.isEmpty &&
      decide (config.registers < dispatcherRegisters)) = true
  · rw [if_pos hbarred]
    exact .limit rfl
  · have hallowed : ¬ (!c.script.methods.isEmpty &&
        decide (config'.registers < dispatcherRegisters)) = true := by
      simp only [Bool.and_eq_true, decide_eq_true_eq, not_and] at hbarred ⊢
      intro hmethods
      have := hbarred hmethods
      omega
    rw [if_neg hbarred, if_neg hallowed]
    exact .ok ()

/-! ## Section 2: Machines with wider limits -/

/-- Frames at the same place, the first with `n` registers, which the second has as well. -/
structure Frame.ExtendsTo (n : Nat) (f f' : Frame) : Prop where
  context : f.context = f'.context
  ip : f.ip = f'.ip
  size : f.registers.size = n
  registers : ∀ k, k < n → f'.registers[k]? = f.registers[k]?

/-- Machines in the same state, but for registers beyond the first `n` and for what they noted
    in their journals. -/
structure Machine.ExtendsTo (n : Nat) (m m' : Machine Ω) : Prop where
  frame : m.frame.ExtendsTo n m'.frame
  callers : List.Forall₂ (Frame.ExtendsTo n) m.callers m'.callers
  stack : m.stack = m'.stack
  status : m.status = m'.status
  offset : m.offset = m'.offset
  faultSite : m.faultSite = m'.faultSite
  heap : m.heap = m'.heap

/-- The first outcome is due to a limit, or the outcomes have the same result and leave
    machines in the same state. -/
inductive UnlessLimited (n : Nat) : Outcome Ω α → Outcome Ω α → Prop where
  | limit {f : Fault} {m : Machine Ω} {o : Outcome Ω α} (hf : f.isLimit = true) :
    UnlessLimited n (.error f, m) o
  | same (r : Except Fault α) {m m' : Machine Ω} (h : m.ExtendsTo n m') :
    UnlessLimited n (r, m) (r, m')

/-- An outcome that is not due to a limit is the outcome of the second machine as well. -/
theorem UnlessLimited.exists_eq {n : Nat} {m : Machine Ω} {r : Except Fault α} {o' : Outcome Ω α}
    (h : UnlessLimited n (r, m) o') (hfree : ∀ f, r = .error f → f.isLimit = false) :
    ∃ m', o' = (r, m') ∧ m.ExtendsTo n m' := by
  cases h with
  | @limit f m o hf =>
    rw [hfree f rfl] at hf
    cases hf
  | same r h => exact ⟨_, rfl, h⟩

theorem UnlessLimited.exists_ok {n : Nat} {m : Machine Ω} {a : α} {o' : Outcome Ω α}
    (h : UnlessLimited n (.ok a, m) o') : ∃ m', o' = (.ok a, m') ∧ m.ExtendsTo n m' := by
  apply h.exists_eq
  intro f hf
  cases hf

/-- An operation without a result is answered alike. -/
theorem UnlessLimited.answer {n : Nat} {o o' : Outcome Ω Unit} (h : UnlessLimited n o o') :
    UnlessLimited n (Machine.answer o) (Machine.answer o') := by
  cases h with
  | limit hf => exact .limit hf
  | same r h => exact .same _ h

/-- Fresh frames are empty, so that they agree as far as both have registers. -/
theorem Frame.extendsTo_fresh {config config' : Config} (hle : config.AtMost config')
    (c : Context) (ip : Nat) :
    (Frame.fresh config c ip).ExtendsTo config.registers (Frame.fresh config' c ip) where
  context := rfl
  ip := rfl
  size := Array.size_replicate
  registers := by
    intro k hk
    rw [Frame.fresh_register c ip hk, Frame.fresh_register c ip (by have := hle.registers; omega)]

namespace Machine

variable {n : Nat} {m m' : Machine Ω}

/-- Fresh machines with the same stack are in the same state. -/
theorem extendsTo_initial {config config' : Config} (hle : config.AtMost config')
    (entry : Context) (heap : Heap Ω) (stack : Array Value) :
    ({ initial config entry heap with stack } : Machine Ω).ExtendsTo config.registers
      { initial config' entry heap with stack } where
  frame := Frame.extendsTo_fresh hle entry 0
  callers := .nil
  stack := rfl
  status := rfl
  offset := rfl
  faultSite := rfl
  heap := rfl

theorem ExtendsTo.depth_eq (h : m.ExtendsTo n m') : m.depth = m'.depth := by
  unfold depth
  rw [h.callers.length_eq]

theorem ExtendsTo.setRegister (h : m.ExtendsTo n m') (index : UInt8) (v : Value) :
    (m.setRegister index v).ExtendsTo n (m'.setRegister index v) where
  frame := by
    refine ⟨h.frame.context, h.frame.ip, (m.setRegister_size index v).trans h.frame.size, ?_⟩
    intro k hk
    have hsame := h.frame.registers k hk
    by_cases heq : k = index.toNat
    · -- both machines have this register
      have hin : k < m.frame.registers.size := by
        rw [h.frame.size]
        exact hk
      have hin' : k < m'.frame.registers.size := by
        rw [Array.getElem?_eq_getElem hin] at hsame
        exact (Array.getElem?_eq_some_iff.mp hsame).1
      subst heq
      rw [m.setRegister_self v hin, m'.setRegister_self v hin']
    · rw [m.setRegister_of_ne v heq, m'.setRegister_of_ne v heq, hsame]
  callers := h.callers
  stack := h.stack
  status := h.status
  offset := h.offset
  faultSite := h.faultSite
  heap := h.heap

theorem ExtendsTo.setRegisters (h : m.ExtendsTo n m') (changes : List (UInt8 × Value)) :
    (m.setRegisters changes).ExtendsTo n (m'.setRegisters changes) := by
  induction changes generalizing m m' with
  | nil => exact h
  | cons change changes ih => exact ih (h.setRegister change.1 change.2)

theorem ExtendsTo.withHeap (h : m.ExtendsTo n m') (heap : Heap Ω) :
    ({ m with heap } : Machine Ω).ExtendsTo n { m' with heap } :=
  ⟨h.frame, h.callers, h.stack, h.status, h.offset, h.faultSite, rfl⟩

theorem ExtendsTo.withStack (h : m.ExtendsTo n m') (stack : Array Value) :
    ({ m with stack } : Machine Ω).ExtendsTo n { m' with stack } :=
  ⟨h.frame, h.callers, rfl, h.status, h.offset, h.faultSite, h.heap⟩

theorem ExtendsTo.withStatus (h : m.ExtendsTo n m') (status : Status) :
    ({ m with status } : Machine Ω).ExtendsTo n { m' with status } :=
  ⟨h.frame, h.callers, h.stack, rfl, h.offset, h.faultSite, h.heap⟩

theorem ExtendsTo.withJournals (h : m.ExtendsTo n m') (journal journal' : Array LogEntry) :
    ({ m with journal } : Machine Ω).ExtendsTo n { m' with journal := journal' } :=
  ⟨h.frame, h.callers, h.stack, h.status, h.offset, h.faultSite, h.heap⟩

/-- Both machines go on at the same place of their codes. -/
theorem ExtendsTo.withIp (h : m.ExtendsTo n m') (ip : Nat) :
    ({ m with frame := { m.frame with ip } } : Machine Ω).ExtendsTo n
      { m' with frame := { m'.frame with ip } } :=
  ⟨⟨h.frame.context, rfl, h.frame.size, h.frame.registers⟩, h.callers, h.stack, h.status, h.offset,
    h.faultSite, h.heap⟩

/-! ## Section 3: Operands -/

/-- A register that the first machine has holds the same value in both. -/
theorem ExtendsTo.register (h : m.ExtendsTo n m') (index : UInt8) :
    CutShort (m.register index) (m'.register index) := by
  by_cases hk : index.toNat < n
  · have hsame : m.register index = m'.register index := by
      have hin : index.toNat < m.frame.registers.size := by
        rw [h.frame.size]
        exact hk
      unfold Machine.register readRegister
      rw [h.frame.registers index.toNat hk, Array.getElem?_eq_getElem hin]
    rw [hsame]
    exact .same _
  · -- the first machine has no such register; what the second one has does not matter
    have hout : m.frame.registers.size ≤ index.toNat := by
      rw [h.frame.size]
      omega
    unfold Machine.register
    unfold readRegister
    rw [Array.getElem?_eq_none hout]
    exact .limit rfl

/-- What is computed from a register alone is the same, unless there is no such register. -/
theorem ExtendsTo.registerWith (h : m.ExtendsTo n m') (index : UInt8)
    (f : Value → Except Fault α) :
    CutShort (m.register index >>= f) (m'.register index >>= f) :=
  (h.register index).bind fun v => .same (f v)

theorem ExtendsTo.stringIn (h : m.ExtendsTo n m') (instruction : String) (index : UInt8) :
    CutShort (m.stringIn instruction index) (m'.stringIn instruction index) :=
  h.registerWith index _

/-! ## Section 4: Registers and the stack -/

theorem ExtendsTo.assign (h : m.ExtendsTo n m') (index : UInt8) (v : Value) :
    UnlessLimited n (m.assign index v) (m'.assign index v) := by
  have hread := h.register index
  unfold Machine.assign
  generalize m.register index = x, m'.register index = x' at hread
  cases hread with
  | limit hf => exact .limit hf
  | error f => exact .same (.error f) h
  | ok _ => exact .same (.ok ()) (h.setRegister index v)

/-- What both have computed is stored alike. -/
theorem ExtendsTo.store (h : m.ExtendsTo n m') (index : UInt8) (r : Except Fault Value) :
    UnlessLimited n (m.store index r) (m'.store index r) := by
  cases r with
  | error f => exact .same (.error f) h
  | ok v => exact h.assign index v

theorem ExtendsTo.storeWithHeap (h : m.ExtendsTo n m') (index : UInt8)
    (r : Except Fault (Value × Heap Ω)) :
    UnlessLimited n (m.storeWithHeap index r) (m'.storeWithHeap index r) := by
  cases r with
  | error f => exact .same (.error f) h
  | ok p =>
    obtain ⟨v, heap⟩ := p
    have hread := h.register index
    unfold Machine.storeWithHeap
    generalize m.register index = x, m'.register index = x' at hread
    cases hread with
    | limit hf => exact .limit hf
    | error f => exact .same (.error f) h
    | ok _ => exact .same (.ok ()) ((h.setRegister index v).withHeap heap)

/-- What the smaller stack has room for, the larger one has. -/
theorem ExtendsTo.push (h : m.ExtendsTo n m') {config config' : Config}
    (hle : config.AtMost config') (v : Value) :
    UnlessLimited n (m.push config v) (m'.push config' v) := by
  have hsize := hle.stackSize
  unfold Machine.push
  by_cases hroom : m.stack.size < config.stackSize
  · have hroom' : m'.stack.size < config'.stackSize := by
      rw [← h.stack]
      omega
    rw [if_pos hroom, if_pos hroom', ← h.stack]
    exact .same (.ok ()) (h.withStack (m.stack.push v))
  · rw [if_neg hroom]
    exact .limit rfl

theorem ExtendsTo.pop (h : m.ExtendsTo n m') (instruction : String) :
    UnlessLimited n (m.pop instruction) (m'.pop instruction) := by
  unfold Machine.pop
  rw [← h.stack]
  split
  · exact .same _ (h.withStack m.stack.pop)
  · exact .same _ h

theorem ExtendsTo.pushRegister (h : m.ExtendsTo n m') {config config' : Config}
    (hle : config.AtMost config') (src : UInt8) :
    UnlessLimited n (m.pushRegister config src) (m'.pushRegister config' src) := by
  have hread := h.register src
  unfold Machine.pushRegister
  generalize m.register src = x, m'.register src = x' at hread
  cases hread with
  | limit hf => exact .limit hf
  | error f => exact .same (.error f) h
  | ok v => exact h.push hle v

theorem ExtendsTo.popRegister (h : m.ExtendsTo n m') (instruction : String) (dst : UInt8) :
    UnlessLimited n (m.popRegister instruction dst) (m'.popRegister instruction dst) := by
  have hread := h.register dst
  have hpop := h.pop instruction
  unfold Machine.popRegister
  generalize m.register dst = x, m'.register dst = x' at hread
  generalize m.pop instruction = o, m'.pop instruction = o' at hpop
  cases hread with
  | limit hf => exact .limit hf
  | error f => exact .same (.error f) h
  | ok _ =>
    cases hpop with
    | limit hf => exact .limit hf
    | same r h₁ =>
      cases r with
      | error f => exact .same (.error f) h₁
      | ok v => exact .same (.ok ()) (h₁.setRegister dst v)

/-! ## Section 5: Frames -/

theorem ExtendsTo.leave (h : m.ExtendsTo n m') : m.leave.ExtendsTo n m'.leave := by
  have hcallers := h.callers
  unfold Machine.leave
  generalize m.callers = callers, m'.callers = callers' at hcallers
  cases hcallers with
  | nil => exact ⟨h.frame, .nil, h.stack, rfl, h.offset, h.faultSite, h.heap⟩
  | @cons caller caller' _ _ hcaller hrest =>
    have hback : ({ m with frame := caller, callers := _ } : Machine Ω).ExtendsTo n
        { m' with frame := caller', callers := _ } :=
      ⟨hcaller, hrest, h.stack, h.status, h.offset, h.faultSite, h.heap⟩
    -- the contexts are the same, and so both returns are noted or none is
    dsimp only
    rw [hcaller.context, h.frame.context]
    split
    · exact hback
    · exact hback.withJournals _ _

/-- A frame that fits under the smaller limit of frames fits under the larger one. -/
theorem ExtendsTo.enter {config config' : Config} (h : m.ExtendsTo config.registers m')
    (hle : config.AtMost config') (c : Context) (ip : Nat) :
    UnlessLimited config.registers (m.enter config c ip) (m'.enter config' c ip) := by
  have hdepth := hle.callDepth
  unfold Machine.enter
  by_cases hfull : config.callDepth ≤ m.depth
  · rw [if_pos hfull]
    exact .limit rfl
  · have hroom : ¬ config'.callDepth ≤ m'.depth := by
      rw [← h.depth_eq]
      omega
    rw [if_neg hfull, if_neg hroom]
    exact .same (.ok ()) ⟨Frame.extendsTo_fresh hle c ip, .cons h.frame h.callers, h.stack,
      h.status, h.offset, h.faultSite, h.heap⟩

theorem ExtendsTo.checkTarget_eq (h : m.ExtendsTo n m') (target : UInt32) :
    m.checkTarget target = m'.checkTarget target := by
  unfold checkTarget
  rw [h.frame.context]

theorem ExtendsTo.jump (h : m.ExtendsTo n m') (target : UInt32) :
    UnlessLimited n (m.jump target) (m'.jump target) := by
  unfold Machine.jump
  rw [h.checkTarget_eq]
  split
  · exact .same (.ok ()) (h.withIp _)
  · exact .same _ h

theorem ExtendsTo.callTarget {config config' : Config} (h : m.ExtendsTo config.registers m')
    (hle : config.AtMost config') (target : UInt32) :
    UnlessLimited config.registers (m.callTarget config target) (m'.callTarget config' target) := by
  unfold Machine.callTarget
  rw [h.checkTarget_eq]
  split
  · exact .same _ h
  · rw [h.frame.context]
    exact h.enter hle _ _

/-- A context is entered alike, unless its dispatcher lacks registers. -/
theorem ExtendsTo.switchContext {config config' : Config} (h : m.ExtendsTo config.registers m')
    (hle : config.AtMost config') (instruction : String) (handle : UInt8) :
    UnlessLimited config.registers (m.switchContext config instruction handle)
      (m'.switchContext config' instruction handle) := by
  have hread : CutShort (do m.heap.asContext (← m.register handle) instruction)
      (do m'.heap.asContext (← m'.register handle) instruction) := by
    rw [h.heap]
    exact h.registerWith handle _
  unfold Machine.switchContext
  generalize (do m.heap.asContext (← m.register handle) instruction : Except Fault Context) = x,
    (do m'.heap.asContext (← m'.register handle) instruction : Except Fault Context) = x' at hread
  cases hread with
  | limit hf => exact .limit hf
  | error f => exact .same (.error f) h
  | ok c =>
    have hcheck := hle.checkContext c
    dsimp only
    generalize config.checkContext c = y, config'.checkContext c = y' at hcheck
    cases hcheck with
    | limit hf => exact .limit hf
    | error f => exact .same (.error f) (h.withJournals _ _)
    | ok _ => exact (h.withJournals _ _).enter hle c 0

/-! ## Section 6: Entries -/

section HostData

variable [HostData Ω]

theorem ExtendsTo.putEntry (h : m.ExtendsTo n m') (instruction : String)
    (value container key : UInt8) :
    UnlessLimited n (m.putEntry instruction value container key)
      (m'.putEntry instruction value container key) := by
  have hread : CutShort
      (do return (← m.register value, ← m.register key, ← m.register container))
      (do return (← m'.register value, ← m'.register key, ← m'.register container)) := by
    refine (h.register value).bind ?_
    intro v
    refine (h.register key).bind ?_
    intro k
    exact h.registerWith container fun c => pure (v, k, c)
  unfold Machine.putEntry
  generalize (do return (← m.register value, ← m.register key, ← m.register container) :
      Except Fault (Value × Value × Value)) = x,
    (do return (← m'.register value, ← m'.register key, ← m'.register container) :
      Except Fault (Value × Value × Value)) = x' at hread
  cases hread with
  | limit hf => exact .limit hf
  | error f => exact .same (.error f) h
  | ok p =>
    obtain ⟨v, k, c⟩ := p
    dsimp only
    rw [h.heap]
    exact .same _ ((h.setRegister container _).withHeap _)

end HostData

end Machine

end ContractVM
