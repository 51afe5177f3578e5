import ContractVM.Command.Execute
import ContractVM.Proofs.Isa.Windows
import ContractVM.Proofs.Machine.Confined
import ContractVM.Proofs.Machine.Session
import ContractVM.Proofs.Machine.Steps

/-! # Limits hold in every session

    The code may be anything, and the host may call what it likes.  Still the stack and the
    frames stay within the limits of the configuration:

    * **One instruction** keeps `Bounded`, provided that it was fetched from inside the code.
    * **One action** of the host keeps it, too, and so does a refused or finished run.
    * **Reads** stay in a window of the code of the current frame. -/

namespace ContractVM

variable {Ω α : Type}

/-! ## Section 1: Bounded machines -/

/-- The frame waits inside its code, or at its end, with the registers of a frame. -/
structure Frame.Waits (config : Config) (f : Frame) : Prop where
  registers : f.registers.size = config.registers
  ip : f.ip ≤ f.context.code.size

namespace Machine

variable {config : Config} {m : Machine Ω}

/-- The stack, the frames and their registers keep to the configuration. -/
structure Bounded (config : Config) (m : Machine Ω) : Prop where
  stack : m.stack.size ≤ config.stackSize
  depth : m.depth ≤ max 1 config.callDepth
  registers : m.frame.registers.size = config.registers
  callers : ∀ f ∈ m.callers, f.Waits config

theorem fresh_registers_size (config : Config) (c : Context) (ip : Nat) :
    (Frame.fresh config c ip).registers.size = config.registers :=
  Array.size_replicate

theorem bounded_initial (config : Config) (entry : Context) (heap : Heap Ω) :
    Bounded config (Machine.initial config entry heap) where
  stack := Nat.zero_le _
  depth := Nat.le_max_left _ _
  registers := fresh_registers_size config entry 0
  callers := fun _ hf => absurd hf List.not_mem_nil

/-- What only touches other parts of a machine keeps it bounded. -/
theorem Bounded.of_eq (h : Bounded config m) {m' : Machine Ω} (hstack : m'.stack = m.stack)
    (hregisters : m'.frame.registers.size = m.frame.registers.size)
    (hcallers : m'.callers = m.callers) : Bounded config m' where
  stack := by rw [hstack]; exact h.stack
  depth := by
    unfold Machine.depth
    rw [hcallers]
    exact h.depth
  registers := hregisters.trans h.registers
  callers := by rw [hcallers]; exact h.callers

/-- A machine whose frames were all dropped but the current one. -/
theorem Bounded.of_nil (h : Bounded config m) {m' : Machine Ω} (hstack : m'.stack = m.stack)
    (hregisters : m'.frame.registers.size = config.registers) (hcallers : m'.callers = []) :
    Bounded config m' where
  stack := by rw [hstack]; exact h.stack
  depth := by
    unfold Machine.depth
    rw [hcallers]
    exact Nat.le_max_left _ _
  registers := hregisters
  callers := by
    rw [hcallers]
    exact fun _ hf => absurd hf List.not_mem_nil

theorem Bounded.leave (h : Bounded config m) : Bounded config m.leave := by
  have hleft := m.hasLeft_leave
  unfold HasLeft at hleft
  split at hleft
  · next hnil =>
    rw [m.leave_of_nil hnil]
    exact h.of_eq rfl rfl rfl
  · next caller callers hcons =>
    have hwaits := h.callers
    have hdepth := h.depth
    unfold Machine.depth at hdepth
    rw [hcons, List.length_cons] at hdepth
    rw [hcons] at hwaits
    obtain ⟨-, hframe, hcallers⟩ := hleft
    constructor
    · rw [leave_stack]
      exact h.stack
    · unfold Machine.depth
      rw [hcallers]
      omega
    · rw [hframe]
      exact (hwaits caller List.mem_cons_self).registers
    · rw [hcallers]
      exact fun f hf => hwaits f (List.mem_cons_of_mem caller hf)

/-- A new frame is entered below the limit of frames only. -/
theorem Bounded.enters (h : Bounded config m) (hip : m.frame.ip ≤ m.frame.context.code.size)
    {o : Outcome Ω Unit} (ho : Enters config m o) : Bounded config o.2 := by
  cases ho with
  | refused f journal => exact h.of_eq rfl rfl rfl
  | @entered c ip hdepth _ journal =>
    constructor
    · exact h.stack
    · show m.callers.length + 1 + 1 ≤ _
      unfold Machine.depth at hdepth
      omega
    · exact fresh_registers_size config c ip
    · -- the current frame waits now, right behind its instruction
      intro f hf
      rcases List.mem_cons.mp hf with rfl | hf
      · exact ⟨h.registers, hip⟩
      · exact h.callers f hf

/-! ## Section 2: Instructions -/

variable [HostData Ω] {env : Env Ω}

theorem Bounded.keeps (h : Bounded config m) {g : Machine Ω → Outcome Ω α}
    (hg : Confined config g) : Bounded config (g m).2 := by
  have hkeeps := hg.keeps m
  -- a confined operation leaves the waiting frames to their surroundings
  have hcallers : (g m).2.callers = m.callers :=
    congrArg Surroundings.callers (hg.surroundings_eq m)
  constructor
  · exact Nat.le_trans hkeeps.stack (Nat.max_le.mpr ⟨h.stack, Nat.le_refl _⟩)
  · unfold Machine.depth
    rw [hcallers]
    exact h.depth
  · exact hkeeps.registers.trans h.registers
  · rw [hcallers]
    exact h.callers

/-- An instruction that calls no host function keeps a machine bounded. -/
theorem Bounded.exec (h : Bounded env.config m) (hip : m.frame.ip ≤ m.frame.context.code.size)
    {i : Instr UInt32} (hplain : ∀ target, i ≠ ⟨.extCall, (target, ())⟩) :
    Bounded env.config (m.exec env i).2 := by
  cases exec_reach env i with
  | confined hi => exact h.keeps hi
  | calls target hi =>
    subst hi
    exact h.enters hip (m.enters_callTarget env.config target)
  | returns hi =>
    subst hi
    exact h.leave
  | switches handle hi =>
    subst hi
    exact h.enters hip (m.enters_switchContext env.config _ handle)
  | callsHost target hi => exact absurd hi (hplain target)

/-! ## Section 3: Hosts -/

omit [HostData Ω] in
/-- A machine that was put before a run has one frame. -/
theorem Bounded.requestRun (h : Bounded env.config m) (method : Option String) :
    Bounded env.config (m.requestRun env method).2 := by
  have hrequests := m.requests env method
  generalize m.requestRun env method = o at hrequests ⊢
  cases hrequests with
  | nested _ => exact h
  | @starts entry _ _ => exact h.of_nil rfl (fresh_registers_size env.config env.entry entry) rfl
  | unknown _ _ _ _ => exact h.of_eq rfl rfl rfl

theorem Bounded.perform (h : Bounded env.config m) (action : HostAction Ω) :
    Bounded env.config (m.perform env action).2 := by
  cases action with
  | push v =>
    have hpush : Bounded env.config (m.push env.config v).2 := h.keeps (confined_push v)
    exact hpush
  | pop => exact h.keeps (confined_pop HostProgram.instruction)
  | clearStack => exact ⟨Nat.zero_le _, h.depth, h.registers, h.callers⟩
  | requestRun method => exact h.requestRun method
  | newStruct => exact h.of_eq rfl rfl rfl
  | put container key value instruction => exact h.of_eq rfl rfl rfl
  | insert r key value => exact h.of_eq rfl rfl rfl
  | deepCopy v instruction =>
    unfold Machine.perform
    dsimp only
    split
    · exact h.of_eq rfl rfl rfl
    · exact h
  | cast v t instruction =>
    unfold Machine.perform
    dsimp only
    split
    · exact h.of_eq rfl rfl rfl
    · exact h
  | newObject x => exact h.of_eq rfl rfl rfl
  | setObject r x => exact h.of_eq rfl rfl rfl
  | note level text => exact h.of_eq rfl rfl rfl

omit [HostData Ω] in
/-- The end of a run drops frames, if it changes them at all. -/
theorem Bounded.finish {o : Outcome Ω Unit} (h : Bounded config o.2) :
    Bounded config (Machine.finish o).2 := by
  obtain ⟨r, m⟩ := o
  cases r with
  | ok _ => exact h.of_eq rfl rfl rfl
  | error f => exact h.of_nil rfl h.registers rfl

/-! ## Section 4: Reads -/

omit [HostData Ω] in
/-- A fetched instruction leaves the frame inside its code. -/
theorem Bounded.fetch (h : Bounded env.config m) (hend : m.frame.atEnd = false)
    {r : Except Fault (Instr UInt32)} {m' : Machine Ω}
    (hfetch : Machine.fetch env { m with offset := m.frame.ip } = (r, m')) :
    Bounded env.config m' ∧ (∀ i, r = .ok i → m'.frame.ip ≤ m'.frame.context.code.size) := by
  have hip : m.frame.ip ≤ m.frame.context.code.size := by
    unfold Frame.atEnd at hend
    exact Nat.le_of_not_le (of_decide_eq_false hend)
  have hfetches := Machine.fetches env { m with offset := m.frame.ip }
  rw [hfetch] at hfetches
  cases hfetches with
  | @read i next hread journal =>
    obtain ⟨stop, hwindow⟩ := Reader.guarded_instr m.frame.context.code m.frame.ip hip
    have hnext : next = stop := hwindow.used i next hread
    refine ⟨h.of_eq rfl rfl rfl, fun _ _ => ?_⟩
    -- the frame stands at the end of the window, which lies in the code
    show next ≤ m.frame.context.code.size
    rw [hnext]
    exact hwindow.inside
  | misread hread journal => exact ⟨h.of_eq rfl rfl rfl, fun _ hi => by cases hi⟩

end Machine

/-! ## Section 5: Whole sessions -/

namespace Session

variable [HostData Ω] {env : Env Ω} {may : HostAction Ω → Prop}

omit [HostData Ω] in
theorem bounded_after {config : Config} {o : Outcome Ω Unit} (h : Machine.Bounded config o.2) :
    (after o).machine.Bounded config := by
  obtain ⟨r, m⟩ := o
  cases r with
  | ok _ => exact h
  | error f => exact Machine.Bounded.finish (o := (.error f, m)) h

/-- Every step of a session keeps its machine bounded. -/
theorem Next.bounded {s s' : Session Ω} (hnext : Next env may s s')
    (h : s.machine.Bounded env.config) : s'.machine.Bounded env.config := by
  cases hnext with
  | acts _ _ => exact h.perform _
  | @refused m m' method f hrequest =>
    have hbounded := h.requestRun method
    rw [hrequest] at hbounded
    exact hbounded
  | @begins m m' method hrequest =>
    have hbounded := h.requestRun method
    rw [hrequest] at hbounded
    exact bounded_after hbounded
  | @stops m hrun => exact Machine.Bounded.finish (o := (.ok (), m)) h
  | leaves _ _ => exact h.leave
  | misreads _ hend hfetch => exact bounded_after (h.fetch hend hfetch).1
  | executes _ hend hfetch hplain =>
    obtain ⟨hbounded, hip⟩ := h.fetch hend hfetch
    exact bounded_after (hbounded.exec (hip _ rfl) hplain)
  | misses _ hend hfetch _ => exact bounded_after (h.fetch hend hfetch).1
  | @calls m m' target name program _ hend hfetch _ =>
    obtain ⟨hbounded, -⟩ := h.fetch hend hfetch
    obtain ⟨journal, hnote⟩ := m'.noteCall_eq env name
    show (m'.noteCall env name).Bounded env.config
    rw [hnote]
    exact hbounded.of_eq rfl rfl rfl
  | performs _ => exact h.perform _
  | @replies m name verdict =>
    cases verdict with
    | resume => exact bounded_after h
    | halt => exact bounded_after (o := (.ok (), { m with status := .halt })) (h.of_eq rfl rfl rfl)
    | fault => exact bounded_after (o := (.error _, m)) h
  | fails f => exact bounded_after (o := (.error f, _)) h

end Session

/-- **Limits hold.** Let a machine start with any entry context, any registry and any heap,
    and let its host do with it whatever it likes, in host functions as well as between
    runs.  In every session that is reached, the stack and the frames keep to the
    configuration, every frame has its registers, and every frame that waits stands in its
    code or at the end.  The next instruction of a frame is read from a window of its code
    or not at all: a read that leaves the code is a fault, which names the first offset
    that was not looked at. -/
theorem limits_hold [HostData Ω] (env : Env Ω) (heap : Heap Ω) {s : Session Ω}
    (hreach : Session.Reaches env (fun _ => True)
      ⟨Machine.initial env.config env.entry heap, .idle⟩ s) :
    s.machine.stack.size ≤ env.config.stackSize ∧
    s.machine.depth ≤ max 1 env.config.callDepth ∧
    s.machine.frame.registers.size = env.config.registers ∧
    (∀ f ∈ s.machine.callers,
      f.registers.size = env.config.registers ∧ f.ip ≤ f.context.code.size) ∧
    (s.machine.frame.atEnd = false →
      let code := s.machine.frame.context.code
      let ip := s.machine.frame.ip
      ∃ stop, Reader.Window Reader.instr code ip stop ∧
        (∀ i next, Reader.instr code ip = .ok (i, next) → next = stop ∧
          ∃ m, Machine.fetch env { s.machine with offset := ip } = (.ok i, m) ∧
            m.frame.ip = stop) ∧
        ∀ f, Reader.instr code ip = .error f → (s.machine.step env).1 = .error (.code f)) := by
  have hbounded : s.machine.Bounded env.config :=
    hreach.invariant (P := fun s => s.machine.Bounded env.config)
      (fun _ _ hnext h => hnext.bounded h) (Machine.bounded_initial env.config env.entry heap)
  refine ⟨hbounded.stack, hbounded.depth, hbounded.registers,
    fun f hf => ⟨(hbounded.callers f hf).registers, (hbounded.callers f hf).ip⟩, ?_⟩
  intro hend code ip
  have hip : ip ≤ code.size := by
    unfold Frame.atEnd at hend
    exact Nat.le_of_not_le (of_decide_eq_false hend)
  obtain ⟨stop, hwindow⟩ := Reader.guarded_instr code ip hip
  refine ⟨stop, hwindow, ?_, ?_⟩
  · intro i next hread
    have hnext : next = stop := hwindow.used i next hread
    obtain ⟨journal, hfetch⟩ := Machine.fetch_of_read env hread
    exact ⟨hnext, _, hfetch, hnext⟩
  · intro f hread
    obtain ⟨journal, hfetch⟩ := Machine.fetch_of_misread env hread
    rw [Machine.step_of_fetch_error hend hfetch]

/-- Code that claims a text of `2 ^ 64 - 1` bytes, on a machine without stack: the run begins
    and cannot read it. -/
theorem endless_text_stays_inside :
    let code : Array UInt8 := #[Opcode.load.byte, 0, ValueType.string.tag] ++ Array.replicate 8 0xff
    let c : Context := ⟨0, "main", .ofCode code⟩
    let env : Env Empty := ⟨⟨1, 0, 0, false⟩, c, .empty, .empty⟩
    let m : Machine Empty := .initial env.config c .empty
    ∃ s, Session.Reaches env (fun _ => True) ⟨m, .idle⟩ s ∧ s.phase = .running ∧
      s.machine.depth ≤ 1 ∧ ∃ stop, Reader.Window Reader.instr code 0 stop ∧
        (s.machine.step env).1 = .error (.code (.codeEnded 11 (UInt64.size - 1) 0)) := by
  intro code c env m
  have hrequest : m.requestRun env none = (.ok (), m.start env 0) := rfl
  have hcheck : (m.start env 0).checkStart env = .ok () := rfl
  have hbegin : Session.Next env (fun _ => True) ⟨m, .idle⟩ _ := .begins hrequest
  rw [hcheck] at hbegin
  have hread : (match Reader.instr code 0 with
      | .error f => decide (f = .codeEnded 11 (UInt64.size - 1) 0)
      | .ok _ => false) = true := by
    decide +kernel
  obtain ⟨-, hdepth, -, -, hreads⟩ := limits_hold env .empty hbegin.reaches
  have hend : (m.start env 0).frame.atEnd = false := by decide +kernel
  obtain ⟨stop, hwindow, -, hfails⟩ := hreads hend
  split at hread
  · next f hf =>
    rw [of_decide_eq_true hread] at hf
    exact ⟨_, hbegin.reaches, rfl, hdepth, stop, hwindow, hfails _ hf⟩
  · cases hread

end ContractVM
