import ContractVM.Proofs.Heap.Closed
import ContractVM.Proofs.Machine.Confined
import ContractVM.Proofs.Machine.Registers
import ContractVM.Proofs.Machine.Steps

/-! # Instructions that settle before they act

    Every instruction but `EXTCALL` decides whether it faults before it changes anything:

    * **Faults** leave the machine as it was, but for a line in the journal.  `PUT` is the
      one exception, and is left to `Atomic`.
    * **Results** are stored together with the heap that holds them, so that the values of
      a machine refer to structs that are there. -/

namespace ContractVM

variable {Ω α : Type}

/-! ## Section 1: Closed machines -/

/-- Do the registers of the frame hold values that live in the heap? -/
def Frame.LivesIn (h : Heap Ω) (f : Frame) : Prop :=
  ∀ v ∈ f.registers, v.LivesIn h

theorem Frame.LivesIn.mono {h h' : Heap Ω} {f : Frame} (hf : f.LivesIn h)
    (hsize : h.structs.size ≤ h'.structs.size) : f.LivesIn h' :=
  fun v hv => (hf v hv).mono hsize

theorem Frame.livesIn_fresh (config : Config) (c : Context) (ip : Nat) (h : Heap Ω) :
    (Frame.fresh config c ip).LivesIn h := by
  intro v hv
  rw [(Array.mem_replicate.mp hv).2]
  exact trivial

namespace Machine

/-- No reference of the machine dangles. -/
structure Closed (m : Machine Ω) : Prop where
  stack : ∀ v ∈ m.stack, v.LivesIn m.heap
  frame : m.frame.LivesIn m.heap
  callers : ∀ f ∈ m.callers, f.LivesIn m.heap
  heap : m.heap.Closed

section Closed

variable {m : Machine Ω}

theorem closed_initial (config : Config) (entry : Context) {heap : Heap Ω} (hheap : heap.Closed) :
    (Machine.initial config entry heap).Closed where
  stack _ hv := absurd hv (Array.not_mem_empty _)
  frame := Frame.livesIn_fresh config entry 0 heap
  callers _ hf := absurd hf List.not_mem_nil
  heap := hheap

/-- What holds no values does not matter. -/
theorem Closed.of_eq (h : m.Closed) {m' : Machine Ω} (hstack : m'.stack = m.stack)
    (hregisters : m'.frame.registers = m.frame.registers) (hcallers : m'.callers = m.callers)
    (hheap : m'.heap = m.heap) : m'.Closed := by
  constructor
  · rw [hstack, hheap]
    exact h.stack
  · unfold Frame.LivesIn
    rw [hregisters, hheap]
    exact h.frame
  · rw [hcallers, hheap]
    exact h.callers
  · rw [hheap]
    exact h.heap

theorem Closed.grow (h : m.Closed) {heap : Heap Ω} (hheap : m.heap.ClosedOnto heap) :
    { m with heap }.Closed where
  stack v hv := (h.stack v hv).mono hheap.size_le
  frame := h.frame.mono hheap.size_le
  callers f hf := (h.callers f hf).mono hheap.size_le
  heap := hheap.closed

theorem Closed.register (h : m.Closed) {index : UInt8} {v : Value}
    (hv : m.register index = .ok v) : v.LivesIn m.heap :=
  h.frame v (Array.mem_of_getElem? (m.register_eq_ok.mp hv))

theorem Closed.setRegister (h : m.Closed) (index : UInt8) {v : Value} (hv : v.LivesIn m.heap) :
    (m.setRegister index v).Closed where
  stack := h.stack
  frame w hw := by
    rcases Array.mem_or_eq_of_mem_setIfInBounds hw with hold | rfl
    · exact h.frame w hold
    · exact hv
  callers := h.callers
  heap := h.heap

theorem Closed.setRegisters (h : m.Closed) {changes : List (UInt8 × Value)}
    (hchanges : ∀ change ∈ changes, change.2.LivesIn m.heap) :
    (m.setRegisters changes).Closed := by
  induction changes generalizing m with
  | nil => exact h
  | cons change changes ih =>
    obtain ⟨hfirst, hrest⟩ := List.forall_mem_cons.mp hchanges
    rw [setRegisters_cons]
    exact ih (h.setRegister change.1 hfirst) hrest

theorem Closed.push (h : m.Closed) {v : Value} (hv : v.LivesIn m.heap) :
    { m with stack := m.stack.push v }.Closed where
  stack w hw := by
    rcases Array.mem_push.mp hw with hold | rfl
    · exact h.stack w hold
    · exact hv
  frame := h.frame
  callers := h.callers
  heap := h.heap

/-- What is popped lives in the heap, and so does the rest of the stack. -/
theorem Closed.pop (h : m.Closed) {instruction : String} {v : Value} {m' : Machine Ω}
    (hpop : m.pop instruction = (.ok v, m')) :
    m'.Closed ∧ v.LivesIn m'.heap ∧ m' = { m with stack := m.stack.pop } := by
  unfold Machine.pop at hpop
  split at hpop
  · next hback =>
    cases hpop
    obtain ⟨rest, hrest⟩ := Array.back?_eq_some_iff.mp hback
    refine ⟨⟨?_, h.frame, h.callers, h.heap⟩, h.stack v (Array.mem_of_back? hback), rfl⟩
    intro w hw
    apply h.stack w
    dsimp only at hw
    rw [hrest, Array.pop_push] at hw
    rw [hrest]
    exact Array.mem_push_of_mem _ hw
  · cases hpop

theorem Closed.leave (h : m.Closed) : m.leave.Closed := by
  have hleft := m.hasLeft_leave
  unfold HasLeft at hleft
  split at hleft
  · next hnil =>
    rw [m.leave_of_nil hnil]
    exact h.of_eq rfl rfl rfl rfl
  · next caller callers hcons =>
    have hwaits := h.callers
    rw [hcons] at hwaits
    obtain ⟨-, hframe, hcallers⟩ := hleft
    constructor
    · rw [leave_stack, leave_heap]
      exact h.stack
    · rw [hframe, leave_heap]
      exact hwaits caller List.mem_cons_self
    · rw [hcallers, leave_heap]
      exact fun f hf => hwaits f (List.mem_cons_of_mem caller hf)
    · rw [leave_heap]
      exact h.heap

end Closed

/-! ## Section 2: Settled outcomes -/

/-- A fault has changed nothing but the journal, and no reference dangles afterwards. -/
structure Settled (m : Machine Ω) (o : Outcome Ω α) : Prop where
  atomic : ∀ f, o.1 = .error f → ∃ journal, o.2 = { m with journal }
  closed : m.Closed → o.2.Closed

section Settled

variable (m : Machine Ω)

theorem settled_unchanged (r : Except Fault α) : Settled m (r, m) :=
  ⟨fun _ _ => ⟨m.journal, rfl⟩, id⟩

/-- What succeeds has no fault to be settled. -/
theorem settled_ok {m' : Machine Ω} (a : α) (hclosed : m.Closed → m'.Closed) :
    Settled m (.ok a, m') :=
  ⟨fun _ hfault => (nomatch hfault), hclosed⟩

theorem settled_assign (index : UInt8) {v : Value} (hv : m.Closed → v.LivesIn m.heap) :
    Settled m (m.assign index v) := by
  unfold assign
  split
  · exact m.settled_ok () fun h => h.setRegister index (hv h)
  · exact m.settled_unchanged _

/-- A result is stored, or its fault is passed on. -/
theorem settled_store (index : UInt8) {r : Except Fault Value}
    (hr : m.Closed → Yields (Value.LivesIn m.heap) r) : Settled m (m.store index r) := by
  cases r with
  | ok v => exact m.settled_assign index fun h => hr h v rfl
  | error f => exact m.settled_unchanged _

/-- A result is stored with its heap, unless there is no such register. -/
theorem settled_storeWithHeap (index : UInt8) {r : Except Fault (Value × Heap Ω)}
    (hr : m.Closed → Yields (fun p => m.heap.ClosedOnto p.2 ∧ p.1.LivesIn p.2) r) :
    Settled m (m.storeWithHeap index r) := by
  unfold storeWithHeap
  cases r with
  | error f => exact m.settled_unchanged _
  | ok result =>
    cases m.register index with
    | error f => exact m.settled_unchanged _
    | ok old =>
      apply m.settled_ok ()
      intro h
      obtain ⟨honto, hlives⟩ := hr h result rfl
      exact (h.grow honto).setRegister index hlives

theorem settled_push (config : Config) {v : Value} (hv : m.Closed → v.LivesIn m.heap) :
    Settled m (m.push config v) := by
  unfold push
  split
  · exact m.settled_ok () fun h => h.push (hv h)
  · exact m.settled_unchanged _

theorem settled_pushRegister (config : Config) (src : UInt8) :
    Settled m (m.pushRegister config src) := by
  unfold pushRegister
  split
  · exact m.settled_unchanged _
  · next v hv => exact m.settled_push config fun h => h.register hv

theorem settled_pop (instruction : String) : Settled m (m.pop instruction) := by
  cases hpop : m.pop instruction with
  | mk r m' =>
    cases r with
    | ok v => exact m.settled_ok v fun h => (h.pop hpop).1
    | error f =>
      rcases m.pop_cases instruction with ⟨v, hv⟩ | hempty
      · cases hpop.symm.trans hv
      · cases hpop.symm.trans hempty
        exact m.settled_unchanged _

theorem settled_popRegister (instruction : String) (dst : UInt8) :
    Settled m (m.popRegister instruction dst) := by
  have hsettled := m.settled_pop instruction
  unfold popRegister
  split
  · exact m.settled_unchanged _
  · split
    · next v m' hpop =>
      -- the destination was found before the stack was touched
      apply m.settled_ok ()
      intro h
      obtain ⟨hclosed, hv, -⟩ := h.pop hpop
      exact hclosed.setRegister dst hv
    · next f m' hpop =>
      rw [hpop] at hsettled
      exact ⟨fun _ _ => hsettled.atomic f rfl, hsettled.closed⟩

theorem settled_jump (target : UInt32) : Settled m (m.jump target) := by
  unfold jump
  split
  · exact m.settled_ok () fun h => h.of_eq rfl rfl rfl rfl
  · exact m.settled_unchanged _

/-- A frame is entered with empty registers, or not at all. -/
theorem Enters.settled {config : Config} {m : Machine Ω} {o : Outcome Ω Unit}
    (ho : Enters config m o) : Settled m o := by
  cases ho with
  | @entered c ip _ _ journal =>
    apply m.settled_ok ()
    intro h
    refine ⟨h.stack, Frame.livesIn_fresh config c ip m.heap, ?_, h.heap⟩
    intro f hf
    rcases List.mem_cons.mp hf with rfl | hf
    · exact h.frame
    · exact h.callers f hf
  | refused f journal => exact ⟨fun _ _ => ⟨journal, rfl⟩, fun h => h.of_eq rfl rfl rfl rfl⟩

end Settled

end Machine

/-! ## Section 3: All instructions -/

variable [HostData Ω] {env : Env Ω} {h : Heap Ω}

theorem Heap.Closed.answer (hc : h.Closed) (q : Question) (instruction : String) :
    Yields (Value.LivesIn h) (q.answer h instruction) := by
  cases q with
  | count v => exact .bind fun _ _ => .ok trivial
  | equal v w => exact .bind fun _ _ => .ok trivial
  | get container key => exact hc.get container key instruction

theorem Heap.Closed.make (hc : h.Closed) {p : Product} (hparts : ∀ v ∈ p.parts, v.LivesIn h)
    (env : Env Ω) (instruction : String) :
    Yields (fun made => h.ClosedOnto made.2 ∧ made.1.LivesIn made.2)
      (p.make env h instruction) := by
  cases p with
  | copy v => exact hc.deepCopy v instruction
  | cast v type => exact hc.cast (hparts v List.mem_cons_self)
  | handle name => exact .bind fun c _ => .ok ⟨hc.of_structs_eq rfl, trivial⟩

namespace Machine

/-- Work settles first, unless the instruction is a `PUT`.  The induction is on the kinds of work:
    what was read of a closed machine lives in its heap. -/
theorem settled_of_works {i : Instr UInt32} (hput : i.op ≠ .put) {known : List Value} {w : Work Ω}
    (hw : Works i known w) (m : Machine Ω)
    (hknown : m.Closed → ∀ v ∈ known, v.LivesIn m.heap) : Settled m (w env m) := by
  induction hw with
  | ends => exact m.settled_unchanged _
  | reads index _ ih =>
    dsimp only [attempt]
    split
    · next v hv =>
      exact ih v fun h => List.forall_mem_cons.mpr ⟨h.register hv, hknown h⟩
    · exact m.settled_unchanged _
  | sets _ hlives =>
    apply m.settled_ok ()
    intro h
    exact h.setRegisters fun change hchange => hlives change hchange m.heap (hknown h)
  | @asks _ dst _ q instruction => exact m.settled_store dst fun h => h.heap.answer q instruction
  | @makes _ dst _ p hparts _ instruction =>
    apply m.settled_storeWithHeap dst
    exact fun h => h.heap.make (fun v hv => hknown h v (hparts v hv)) env instruction
  | @pushes _ src => exact m.settled_pushRegister env.config src
  | @pops _ dst _ instruction => exact m.settled_popRegister instruction dst
  | puts hi =>
    subst hi
    exact absurd rfl hput
  | @jumps _ target => exact m.settled_jump target

/-- Every instruction settles first, but for `PUT` and `EXTCALL`. -/
theorem exec_settled (m : Machine Ω) (i : Instr UInt32) (hput : i.op ≠ .put)
    (hextCall : i.op ≠ .extCall) : Settled m (m.exec env i) := by
  cases exec_does (Ω := Ω) i with
  | works h => exact settled_of_works hput h m fun _ _ hv => nomatch hv
  | calls target hi =>
    subst hi
    exact (m.enters_callTarget env.config target).settled
  | returns hi =>
    subst hi
    exact m.settled_ok () fun h => h.leave
  | switches handle hi =>
    subst hi
    exact (m.enters_switchContext env.config _ handle).settled
  | callsHost target hi =>
    subst hi
    exact absurd rfl hextCall

end Machine

end ContractVM
