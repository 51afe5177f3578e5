import ContractVM.Command.Execute
import ContractVM.Proofs.Isa.Windows
import ContractVM.Proofs.Machine.Confined
import ContractVM.Proofs.Machine.Rows
import ContractVM.Proofs.Machine.Session
import ContractVM.Proofs.Machine.Steps

/-! # Frames that wait

    While a frame waits, nothing reaches it, and it reaches nothing:

    * **Alike**: two machines that differ only in the frames at the bottom step alike, as
      long as none of these frames goes on.  Host functions see how many frames there are,
      but not what they hold.
    * **Stretches** of a run above a number of frames are then alike as a whole.
    * **Calls**: the frame that waits for a call goes on as it was left, right behind the
      call, when the frame above it returns. -/

namespace ContractVM.Machine

variable {Ω α : Type}

/-! ## Section 1: Machines that differ at the bottom -/

/-- The machine with more frames that wait, below its own. -/
def onto (m : Machine Ω) (below : List Frame) : Machine Ω :=
  { m with callers := m.callers ++ below }

theorem onto_nil (m : Machine Ω) : m.onto [] = m := by
  unfold onto
  rw [List.append_nil]

theorem onto_inj {m m' : Machine Ω} {b : List Frame} (h : m.onto b = m'.onto b) : m = m' := by
  have hcallers : m.callers = m'.callers :=
    List.append_cancel_right (congrArg Machine.callers h)
  have hback : ∀ m : Machine Ω, m = { m.onto b with callers := m.callers } := fun _ => rfl
  rw [hback m, h, hcallers]
  rfl

/-- The outcomes differ in the frames at the bottom only. -/
def Alike (b₁ b₂ : List Frame) (o₁ o₂ : Outcome Ω α) : Prop :=
  ∃ (r : Except Fault α) (m : Machine Ω), o₁ = (r, m.onto b₁) ∧ o₂ = (r, m.onto b₂)

section Alike

variable (env : Env Ω) {b₁ b₂ : List Frame} (hlen : b₁.length = b₂.length)

include hlen

theorem depth_onto (m : Machine Ω) : (m.onto b₁).depth = (m.onto b₂).depth := by
  unfold depth onto
  rw [List.length_append, List.length_append, hlen]

theorem alike_fetch (m : Machine Ω) :
    Alike b₁ b₂ ((m.onto b₁).fetch env) ((m.onto b₂).fetch env) := by
  have hline : ∀ op, (m.onto b₁).traceLine op = (m.onto b₂).traceLine op := by
    intro op
    unfold traceLine
    rw [m.depth_onto hlen]
    rfl
  -- the machine whose journal may have a new line
  have hnote : ∀ op, ∃ m' : Machine Ω,
      (if env.config.trace then (m.onto b₁).note .debug ((m.onto b₁).traceLine op) else m.onto b₁) =
        m'.onto b₁ ∧
      (if env.config.trace then (m.onto b₂).note .debug ((m.onto b₂).traceLine op) else m.onto b₂) =
        m'.onto b₂ := by
    intro op
    rw [← hline]
    split
    · exact ⟨m.note .debug ((m.onto b₁).traceLine op), rfl, rfl⟩
    · exact ⟨m, rfl, rfl⟩
  have hcode : ∀ b, (m.onto b).frame.context.code = m.frame.context.code := fun _ => rfl
  have hoffset : ∀ b, (m.onto b).offset = m.offset := fun _ => rfl
  unfold fetch
  dsimp only
  rw [hcode, hcode, hoffset, hoffset]
  cases Reader.opcode m.frame.context.code m.offset with
  | error f => exact ⟨.error (.code f), m, rfl, rfl⟩
  | ok read =>
    obtain ⟨op, next⟩ := read
    obtain ⟨m', h₁, h₂⟩ := hnote op
    dsimp only
    rw [h₁, h₂]
    cases Reader.arguments op m.frame.context.code next with
    | error f => exact ⟨.error (.code f), m', rfl, rfl⟩
    | ok operands =>
      obtain ⟨args, ip⟩ := operands
      exact ⟨.ok ⟨op, args⟩, { m' with frame := { m'.frame with ip } }, rfl, rfl⟩

/-- Whether a frame can be entered depends on how many wait, and not on what they hold. -/
theorem alike_enter (config : Config) (c : Context) (ip : Nat) (m : Machine Ω) :
    Alike b₁ b₂ ((m.onto b₁).enter config c ip) ((m.onto b₂).enter config c ip) := by
  unfold enter
  rw [m.depth_onto hlen]
  split
  · exact ⟨.error (.callDepthExceeded config.callDepth), m, rfl, rfl⟩
  · exact ⟨.ok (), { m with frame := Frame.fresh config c ip, callers := m.frame :: m.callers },
      rfl, rfl⟩

theorem alike_callTarget (config : Config) (target : UInt32) (m : Machine Ω) :
    Alike b₁ b₂ ((m.onto b₁).callTarget config target) ((m.onto b₂).callTarget config target) := by
  have hcheck : ∀ b, (m.onto b).checkTarget target = m.checkTarget target := fun _ => rfl
  unfold callTarget
  rw [hcheck, hcheck]
  cases m.checkTarget target with
  | error f => exact ⟨.error f, m, rfl, rfl⟩
  | ok ip => exact alike_enter hlen config m.frame.context ip m

theorem alike_switchContext (config : Config) (instruction : String) (handle : UInt8)
    (m : Machine Ω) :
    Alike b₁ b₂ ((m.onto b₁).switchContext config instruction handle)
      ((m.onto b₂).switchContext config instruction handle) := by
  have hreg : ∀ b, (m.onto b).register handle = m.register handle := fun _ => rfl
  have hheap : ∀ b, (m.onto b).heap = m.heap := fun _ => rfl
  unfold switchContext
  rw [hreg, hreg, hheap, hheap]
  split
  · next f _ => exact ⟨.error f, m, rfl, rfl⟩
  · next c _ =>
    -- the journal has a new line, whether the frame is entered or not
    dsimp only
    cases config.checkContext c with
    | error f => exact ⟨.error f, m.note .debug _, rfl, rfl⟩
    | ok _ => exact alike_enter hlen config c 0 (m.note .debug _)

/-- A frame above the bottom is left alike. -/
theorem alike_leave (m : Machine Ω) (hk : b₁.length ≤ (m.onto b₁).leave.callers.length) :
    ∃ m', (m.onto b₁).leave = onto m' b₁ ∧ (m.onto b₂).leave = onto m' b₂ := by
  cases hcallers : m.callers with
  | nil =>
    have hbottom : ∀ b, (m.onto b).callers = b := fun b => by
      unfold onto
      rw [hcallers, List.nil_append]
    cases b₁ with
    | nil =>
      -- there is no bottom at all, and the machine halts
      have hnil : b₂ = [] := List.eq_nil_of_length_eq_zero hlen.symm
      subst hnil
      exact ⟨m.leave, by rw [onto_nil, onto_nil], by rw [onto_nil, onto_nil]⟩
    | cons caller callers =>
      -- the bottom would lose its first frame
      rw [((m.onto (caller :: callers)).leave_of_cons (hbottom _)).2.2, List.length_cons] at hk
      omega
  | cons caller callers =>
    have hcons : ∀ b, (m.onto b).callers = caller :: (callers ++ b) := fun b => by
      unfold onto
      rw [hcallers, List.cons_append]
    have hleave : ∀ b, (m.onto b).leave = m.leave.onto b := fun b => by
      unfold leave
      rw [hcons, hcallers]
      have hframe : (m.onto b).frame = m.frame := rfl
      dsimp only
      rw [hframe]
      by_cases hsame : caller.context.same m.frame.context = true
      · rw [if_pos hsame, if_pos hsame]
        rfl
      · rw [if_neg hsame, if_neg hsame]
        rfl
    exact ⟨m.leave, hleave b₁, hleave b₂⟩

/-! ## Section 2: Steps -/

variable [HostData Ω]

omit hlen in
/-- A confined operation does not see the bottom. -/
theorem Confined.onto {config : Config} {g : Machine Ω → Outcome Ω α} (hg : Confined config g)
    (m : Machine Ω) (b : List Frame) : g (m.onto b) = ((g m).1, (g m).2.onto b) := by
  have hself := hg.within m m.surroundings
  have hwithin := hg.within m { m.surroundings with callers := m.callers ++ b }
  rw [within_surroundings] at hself
  rw [hself] at hwithin ⊢
  exact hwithin

omit hlen in
/-- An action of a host function does not see the bottom. -/
theorem perform_onto {m : Machine Ω} (hrun : m.status = .running) (action : HostAction Ω)
    (b : List Frame) :
    (m.onto b).perform env action =
      ((m.perform env action).1, (m.perform env action).2.onto b) := by
  cases action with
  | push v =>
    have hpush : Confined env.config fun m : Machine Ω => m.push env.config v := confined_push v
    show answer ((m.onto b).push env.config v) = _
    rw [hpush.onto m b]
    rfl
  | pop =>
    have hpop : Confined env.config fun m : Machine Ω => m.pop HostProgram.instruction :=
      confined_pop HostProgram.instruction
    exact hpop.onto m b
  | clearStack => rfl
  | requestRun method =>
    have hrun' : (m.onto b).status = .running := hrun
    show answer ((m.onto b).requestRun env method) =
      ((answer (m.requestRun env method)).1, (answer (m.requestRun env method)).2.onto b)
    rw [requestRun_of_running hrun, requestRun_of_running hrun']
    rfl
  | newStruct => rfl
  | put container key value instruction => rfl
  | insert r key value => rfl
  | deepCopy v instruction =>
    have hheap : (m.onto b).heap = m.heap := rfl
    unfold perform
    dsimp only
    rw [hheap]
    split
    · rfl
    · rfl
  | cast v t instruction =>
    have hheap : (m.onto b).heap = m.heap := rfl
    unfold perform
    dsimp only
    rw [hheap]
    split
    · rfl
    · rfl
  | newObject x => rfl
  | setObject r x => rfl
  | note level text => rfl

/-- A host program sees how many frames wait, and nothing else of them. -/
theorem alike_run (p : HostProgram Ω α) {m : Machine Ω} (hrun : m.status = .running) :
    Alike b₁ b₂ (p.run env (m.onto b₁)) (p.run env (m.onto b₂)) := by
  induction p generalizing m with
  | reply a => exact ⟨.ok a, m, rfl, rfl⟩
  | fail f => exact ⟨.error f, m, rfl, rfl⟩
  | look next ih =>
    have hview : (m.onto b₁).view env = (m.onto b₂).view env := by
      unfold view
      rw [m.depth_onto hlen]
      rfl
    have hnext := ih ((m.onto b₂).view env) hrun
    show Alike b₁ b₂ ((next ((m.onto b₁).view env)).run env (m.onto b₁)) _
    rw [hview]
    exact hnext
  | act action next ih =>
    -- the machine goes on running, so that no later action can start a run either
    have hstatus : (m.perform env action).2.status = .running :=
      (perform_staysPut env hrun action).status.trans hrun
    unfold HostProgram.run
    rw [perform_onto env hrun action b₁, perform_onto env hrun action b₂]
    exact ih (m.perform env action).1 hstatus

theorem alike_extCall (target : Target) {m : Machine Ω} (hrun : m.status = .running) :
    Alike b₁ b₂ ((m.onto b₁).exec env ⟨.extCall, (target, ())⟩)
      ((m.onto b₂).exec env ⟨.extCall, (target, ())⟩) := by
  have hcallee : ∀ b, (m.onto b).callee env target = m.callee env target := by
    intro b
    cases target with
    | named name => rfl
    | register index => rfl
  have hnote : ∀ name b, (m.onto b).noteCall env name = (m.noteCall env name).onto b := by
    intro name b
    unfold noteCall
    split
    · rfl
    · rfl
  rw [exec_extCall, exec_extCall, hcallee, hcallee]
  cases m.callee env target with
  | error f => exact ⟨.error f, m, rfl, rfl⟩
  | ok found =>
    obtain ⟨name, program⟩ := found
    have hstatus : (m.noteCall env name).status = .running := by
      obtain ⟨journal, hnoted⟩ := m.noteCall_eq env name
      rw [hnoted]
      exact hrun
    obtain ⟨r, m', h₁, h₂⟩ := alike_run env hlen program hstatus
    dsimp only
    rw [hnote, hnote, h₁, h₂]
    cases r with
    | error f => exact ⟨.error f, m', rfl, rfl⟩
    | ok verdict =>
      cases verdict with
      | resume => exact ⟨.ok (), m', rfl, rfl⟩
      | halt => exact ⟨.ok (), { m' with status := .halt }, rfl, rfl⟩
      | fault => exact ⟨.error (.interopFault name "host reported a fault"), m', rfl, rfl⟩

/-- An instruction does not see the bottom, unless it takes a frame from there. -/
theorem alike_exec (i : Instr UInt32) {m : Machine Ω} (hrun : m.status = .running)
    (hk : b₁.length ≤ ((m.onto b₁).exec env i).2.callers.length) :
    Alike b₁ b₂ ((m.onto b₁).exec env i) ((m.onto b₂).exec env i) := by
  cases exec_reach env i with
  | confined hi => exact ⟨(m.exec env i).1, (m.exec env i).2, hi.onto m b₁, hi.onto m b₂⟩
  | calls target hi =>
    subst hi
    exact alike_callTarget hlen env.config target m
  | returns hi =>
    subst hi
    obtain ⟨m', h₁, h₂⟩ := alike_leave hlen m hk
    exact ⟨.ok (), m', congrArg (Prod.mk _) h₁, congrArg (Prod.mk _) h₂⟩
  | switches handle hi =>
    subst hi
    exact alike_switchContext hlen env.config _ handle m
  | callsHost target hi =>
    subst hi
    exact alike_extCall env hlen target hrun

theorem alike_step {m : Machine Ω} (hrun : m.status = .running)
    (hk : b₁.length ≤ ((m.onto b₁).step env).2.callers.length) :
    Alike b₁ b₂ ((m.onto b₁).step env) ((m.onto b₂).step env) := by
  cases hend : m.frame.atEnd with
  | true =>
    have hleaves : ∀ b, (m.onto b).step env = (.ok (), (m.onto b).leave) :=
      fun b => (m.onto b).step_of_atEnd (of_decide_eq_true hend)
    rw [hleaves] at hk ⊢
    rw [hleaves]
    obtain ⟨m', h₁, h₂⟩ := alike_leave hlen m hk
    exact ⟨.ok (), m', congrArg (Prod.mk _) h₁, congrArg (Prod.mk _) h₂⟩
  | false =>
    have hend' : ∀ b, (m.onto b).frame.atEnd = false := fun _ => hend
    have hfetches := fetches env (onto { m with offset := m.frame.ip } b₁)
    obtain ⟨r, m', h₁, h₂⟩ := alike_fetch env hlen { m with offset := m.frame.ip }
    rw [h₁] at hfetches
    cases r with
    | error f =>
      rw [step_of_fetch_error (hend' b₁) h₁, step_of_fetch_error (hend' b₂) h₂]
      exact ⟨.error f, m', rfl, rfl⟩
    | ok i =>
      have hrun' : m'.status = .running := hfetches.status_eq.trans hrun
      rw [step_of_fetch (hend' b₁) h₁] at hk ⊢
      rw [step_of_fetch (hend' b₂) h₂]
      exact alike_exec env hlen i hrun' hk

end Alike

/-! ## Section 3: Stretches of a run -/

variable [HostData Ω]

/-- A stretch above the bottom is the same over another bottom. -/
theorem StaysAbove.alike {b₁ b₂ : List Frame} (hlen : b₁.length = b₂.length) {m m' : Machine Ω}
    {envs : List (Env Ω)} (h : StaysAbove b₁.length (m.onto b₁) envs m') :
    ∃ m₁ : Machine Ω, m' = m₁.onto b₁ ∧ StaysAbove b₂.length (m.onto b₂) envs (m₁.onto b₂) := by
  induction h with
  | refl => exact ⟨m, rfl, .refl⟩
  | @tail envs env m₁ m₂ _ hrun hstep habove ih =>
    -- so far the stretch is alike, and the bottom is still there after the step
    obtain ⟨m₁', rfl, hstays⟩ := ih
    have hrun' : m₁'.status = .running := hrun
    have hk : b₁.length ≤ ((m₁'.onto b₁).step env).2.callers.length := by
      rw [hstep]
      exact habove
    obtain ⟨r, m₂', h₁, h₂⟩ := alike_step env hlen hrun' hk
    cases hstep.symm.trans h₁
    refine ⟨m₂', rfl, hstays.tail hrun h₂ ?_⟩
    show b₂.length ≤ (m₂'.callers ++ b₂).length
    rw [List.length_append]
    exact Nat.le_add_left _ _

/-- The frames that wait at the start are still there. -/
theorem StaysAbove.callers {m m' : Machine Ω} {envs : List (Env Ω)}
    (h : StaysAbove m.callers.length m envs m') : ∃ front, m'.callers = front ++ m.callers := by
  let top : Machine Ω := { m with callers := [] }
  have htop : StaysAbove m.callers.length (top.onto m.callers) envs m' := h
  obtain ⟨m₁, rfl, -⟩ := StaysAbove.alike rfl htop
  exact ⟨m₁.callers, rfl⟩

/-! ## Section 4: Calls and returns -/

variable (env : Env Ω) {m m' : Machine Ω}

/-- The current frame stands at `RET`, or at the end of its code. -/
def Returns (m : Machine Ω) : Prop :=
  m.frame.atEnd = true ∨
    ∃ next, Reader.instr m.frame.context.code m.frame.ip = .ok (⟨.ret, ()⟩, next)

/-- A step executes the instruction that is read at the offset of the frame. -/
theorem step_of_read {i : Instr UInt32} {next : Nat} (hend : m.frame.atEnd = false)
    (hread : Reader.instr m.frame.context.code m.frame.ip = .ok (i, next)) :
    ∃ journal, m.step env = exec env
      { m with frame := { m.frame with ip := next }, offset := m.frame.ip, journal } i := by
  obtain ⟨journal, hfetch⟩ := fetch_of_read env hread
  exact ⟨journal, step_of_fetch hend hfetch⟩

/-- A frame that returns hands over to the frame that waits for it. -/
theorem Returns.step (h : m.Returns) {caller : Frame} {callers : List Frame}
    (hcallers : m.callers = caller :: callers) :
    ∃ m', m.step env = (.ok (), m') ∧ m'.frame = caller ∧ m'.callers = callers := by
  cases hend : m.frame.atEnd with
  | true =>
    have hstep : m.step env = (.ok (), m.leave) := m.step_of_atEnd (of_decide_eq_true hend)
    exact ⟨m.leave, hstep, (m.leave_of_cons hcallers).2⟩
  | false =>
    obtain ⟨next, hread⟩ := h.resolve_left (by rw [hend]; exact Bool.false_ne_true)
    obtain ⟨journal, hstep⟩ := step_of_read env hend hread
    let m₁ : Machine Ω :=
      { m with frame := { m.frame with ip := next }, offset := m.frame.ip, journal }
    exact ⟨m₁.leave, hstep, (m₁.leave_of_cons hcallers).2⟩

omit [HostData Ω] in
theorem Enters.callers_le {config : Config} {o : Outcome Ω Unit} (h : Enters config m o) :
    m.callers.length ≤ o.2.callers.length := by
  cases h with
  | entered _ _ journal => exact Nat.le_succ _
  | refused f journal => exact Nat.le_refl _

/-- No instruction but `RET` takes a frame away. -/
theorem callers_le_exec (hrun : m.status = .running) {i : Instr UInt32} (hi : i ≠ ⟨.ret, ()⟩) :
    m.callers.length ≤ (m.exec env i).2.callers.length := by
  cases exec_reach env i with
  | confined h =>
    have hcallers : (m.exec env i).2.callers = m.callers :=
      congrArg Surroundings.callers (h.surroundings_eq m)
    exact Nat.le_of_eq (congrArg List.length hcallers.symm)
  | calls target hcall =>
    subst hcall
    exact (m.enters_callTarget env.config target).callers_le
  | returns hret => exact absurd hret hi
  | switches handle hswitch =>
    subst hswitch
    exact (m.enters_switchContext env.config _ handle).callers_le
  | callsHost target hcall =>
    subst hcall
    rw [exec_extCall]
    cases m.callee env target with
    | error f => exact Nat.le_refl _
    | ok found =>
      obtain ⟨name, program⟩ := found
      obtain ⟨journal, hnoted⟩ := m.noteCall_eq env name
      have hstays := program.run_staysPut env (m := { m with journal }) hrun
      dsimp only
      rw [hnoted]
      cases hresult : program.run env { m with journal } with
      | mk r m₁ =>
        rw [hresult] at hstays
        have hlength : m.callers.length ≤ m₁.callers.length :=
          Nat.le_of_eq (congrArg List.length hstays.callers.symm)
        cases r with
        | error f => exact hlength
        | ok verdict =>
          cases verdict with
          | resume => exact hlength
          | halt => exact hlength
          | fault => exact hlength

/-- Only a return takes a frame away. -/
theorem returns_of_step (hrun : m.status = .running)
    (hless : (m.step env).2.callers.length < m.callers.length) : m.Returns := by
  cases hend : m.frame.atEnd with
  | true => exact .inl hend
  | false =>
    cases hread : Reader.instr m.frame.context.code m.frame.ip with
    | ok read =>
      obtain ⟨i, next⟩ := read
      by_cases hi : i = ⟨.ret, ()⟩
      · subst hi
        exact .inr ⟨next, hread⟩
      · obtain ⟨journal, hstep⟩ := step_of_read env hend hread
        have hle := callers_le_exec env (m := { m with
          frame := { m.frame with ip := next }, offset := m.frame.ip, journal }) hrun hi
        rw [hstep] at hless
        exact absurd hless (Nat.not_lt.mpr hle)
    | error f =>
      obtain ⟨journal, hfetch⟩ := fetch_of_misread env hread
      rw [step_of_fetch_error hend hfetch] at hless
      exact absurd hless (Nat.lt_irrefl _)

/-- The frame that a call leaves behind, and the frame that it enters. -/
theorem step_of_call {i : Instr UInt32} {next : Nat} (hend : m.frame.atEnd = false)
    (hread : Reader.instr m.frame.context.code m.frame.ip = .ok (i, next))
    (hi : i.op = .call ∨ i.op = .switch) (hstep : m.step env = (.ok (), m')) :
    m'.callers = { m.frame with ip := m.frame.ip + i.encodedLength } :: m.callers ∧
      m'.frame.registers = Array.replicate env.config.registers .none := by
  obtain ⟨op, args⟩ := i
  have hfixed : ∀ kind ∈ op.shape, kind = .register ∨ kind = .address := by
    rcases hi with rfl | rfl
    · simp
    · simp
  have hnext := Reader.next_instr hfixed hread
  obtain ⟨journal, hexec⟩ := step_of_read env hend hread
  rw [hstep] at hexec
  rw [← hnext]
  have henters : Enters env.config
      { m with frame := { m.frame with ip := next }, offset := m.frame.ip, journal }
      (.ok (), m') := by
    rw [hexec]
    rcases hi with rfl | rfl
    · obtain ⟨target, ⟨⟩⟩ := args
      exact enters_callTarget env.config _ target
    · obtain ⟨handle, ⟨⟩⟩ := args
      exact enters_switchContext env.config _ _ handle
  cases henters with
  | entered _ _ journal => exact ⟨rfl, rfl⟩

end ContractVM.Machine

namespace ContractVM

/-- **Waiting frames are isolated.** Take any machine, and steps from there, each with any
    host functions, during which none of the frames that wait goes on.  These frames stay
    as they are; and with other frames in their place the same steps lead to the same
    machine, and the step after them has the same outcome.

    A step that executes `CALL` or `SWITCH` enters a frame with empty registers, and the
    frame it leaves waits right behind the instruction.  Nothing but a return, by `RET` or
    at the end of the code, takes the entered frame away, and it hands over to the frame
    that waits for it. -/
theorem waiting_frames_are_isolated {Ω : Type} [HostData Ω] (m : Machine Ω) :
    (∀ envs m', Machine.StaysAbove m.callers.length m envs m' →
      ∃ front, m'.callers = front ++ m.callers ∧
        ∀ others : List Frame, others.length = m.callers.length →
          Machine.StaysAbove others.length { m with callers := others } envs
            { m' with callers := front ++ others } ∧
          ∀ env r m'', m'.status = .running → m'.step env = (r, m'') →
            m.callers.length ≤ m''.callers.length →
            ∃ front', m''.callers = front' ++ m.callers ∧
              Machine.step env { m' with callers := front ++ others } =
                (r, { m'' with callers := front' ++ others })) ∧
    ∀ env i next m₁, m.frame.atEnd = false →
      Reader.instr m.frame.context.code m.frame.ip = .ok (i, next) →
      i.op = .call ∨ i.op = .switch → m.step env = (.ok (), m₁) →
      let waiting := { m.frame with ip := m.frame.ip + i.encodedLength }
      m₁.callers = waiting :: m.callers ∧
      m₁.frame.registers = Array.replicate env.config.registers .none ∧
      ∀ envs m₂, Machine.StaysAbove m₁.callers.length m₁ envs m₂ → m₂.status = .running →
        ∀ env',
          ((m₂.step env').2.callers.length < m₁.callers.length →
            m₂.Returns ∧ m₂.callers = m₁.callers) ∧
          (m₂.Returns → m₂.callers = m₁.callers →
            ∃ m₃, m₂.step env' = (.ok (), m₃) ∧ m₃.frame = waiting ∧
              m₃.callers = m.callers) := by
  constructor
  · intro envs m' hstays
    -- the machine stands on its waiting frames
    let top : Machine Ω := { m with callers := [] }
    have htop : Machine.StaysAbove m.callers.length (top.onto m.callers) envs m' := hstays
    obtain ⟨m₁, rfl, -⟩ := Machine.StaysAbove.alike rfl htop
    refine ⟨m₁.callers, rfl, ?_⟩
    intro others hlen
    constructor
    · obtain ⟨m₂, heq, hother⟩ := Machine.StaysAbove.alike hlen.symm htop
      rw [Machine.onto_inj heq]
      exact hother
    · intro env r m'' hrun hstep habove
      have hrun' : m₁.status = .running := hrun
      have hk : m.callers.length ≤ ((m₁.onto m.callers).step env).2.callers.length := by
        rw [hstep]
        exact habove
      obtain ⟨r', m₂, h₁, h₂⟩ := Machine.alike_step env hlen.symm hrun' hk
      cases hstep.symm.trans h₁
      exact ⟨m₂.callers, rfl, h₂⟩
  · intro env i next m₁ hend hread hi hstep waiting
    obtain ⟨hcallers, hregisters⟩ := Machine.step_of_call env hend hread hi hstep
    refine ⟨hcallers, hregisters, ?_⟩
    intro envs m₂ hstays hrun env'
    constructor
    · intro hless
      have hle : m₁.callers.length ≤ m₂.callers.length := hstays.le (Nat.le_refl _)
      have hreturns := Machine.returns_of_step env' hrun (Nat.lt_of_lt_of_le hless hle)
      refine ⟨hreturns, ?_⟩
      obtain ⟨front, hfront⟩ := hstays.callers
      cases front with
      | nil => exact hfront
      | cons f front =>
        -- a frame above the entered one would be the one that returns
        have hcons : m₂.callers = f :: (front ++ m₁.callers) := hfront
        obtain ⟨m₃, hstep₃, -, hcallers₃⟩ := hreturns.step env' hcons
        rw [hstep₃, hcallers₃, List.length_append] at hless
        omega
    · intro hreturns hsame
      exact hreturns.step env' (hsame.trans hcallers)

/-- A call of a frame that runs off its code, from the first instruction of a script. -/
theorem called_frame_is_isolated :
    let code : List (Instr UInt32) := [⟨.call, (6, ())⟩, ⟨.ret, ()⟩, ⟨.nop, ()⟩]
    let c : Context := ⟨0, "main", .ofCode (code.flatMap Instr.encode).toArray⟩
    let env : Env Empty := ⟨{}, c, .empty, .empty⟩
    let m : Machine Empty := (Machine.initial env.config c .empty).start env 0
    ∃ m₁ m₂ m₃, m.step env = (.ok (), m₁) ∧ m₁.step env = (.ok (), m₂) ∧ m₂.Returns ∧
      m₂.step env = (.ok (), m₃) ∧ m₃.frame = { m.frame with ip := 5 } ∧ m₃.callers = [] := by
  intro code c env m
  let m₁ := (m.step env).2
  let m₂ := (m₁.step env).2
  have hok : ∀ o : Outcome Empty Unit, o.1.isOk = true → o = (.ok (), o.2) := by
    rintro ⟨r, m⟩ h
    cases r with
    | ok _ => rfl
    | error f => cases h
  have h₁ : m.step env = (.ok (), m₁) := hok _ (by decide +kernel)
  have h₂ : m₁.step env = (.ok (), m₂) := hok _ (by decide +kernel)
  have hread : Reader.instr m.frame.context.code m.frame.ip = .ok (⟨.call, (6, ())⟩, 5) := rfl
  have hend : m₂.frame.atEnd = true := by decide +kernel
  have hrun₁ : m₁.status = .running := by decide +kernel
  have hrun₂ : m₂.status = .running := by decide +kernel
  have hcallers : m₂.callers = m₁.callers := by decide +kernel
  have hstays : Machine.StaysAbove m₁.callers.length m₁ [env] m₂ :=
    Machine.StaysAbove.refl.tail hrun₁ h₂ (Nat.le_of_eq (congrArg List.length hcallers.symm))
  obtain ⟨-, -, hcalls⟩ :=
    (waiting_frames_are_isolated m).2 env _ 5 m₁ rfl hread (.inl rfl) h₁
  obtain ⟨m₃, h₃, hframe, hnone⟩ := (hcalls [env] m₂ hstays hrun₂ env).2 (.inl hend) hcallers
  exact ⟨m₁, m₂, m₃, h₁, h₂, .inl hend, h₃, hframe, hnone⟩

end ContractVM
