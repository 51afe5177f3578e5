import ContractVM.Proofs.Isa.ReadBack

/-! # Steps of a machine

    What a single step does to the frames:

    * **Leaving**: what waited goes on, with the same stack and the same heap.
    * **One step**: at an encoded instruction, a step executes this instruction.
    * **Before the first step** the entry script is checked. -/

namespace ContractVM.Machine

variable {Ω : Type} [HostData Ω] {env : Env Ω}

/-! ## Section 1: What fetching leaves alone -/

section Fetched

variable (env : Env Ω) (m : Machine Ω) (op : Opcode) (next : Nat)

omit [HostData Ω]

@[simp] theorem fetched_frame :
    (m.fetched env op next).frame = { m.frame with ip := next } := rfl

@[simp] theorem fetched_callers : (m.fetched env op next).callers = m.callers := rfl

@[simp] theorem fetched_stack : (m.fetched env op next).stack = m.stack := rfl

@[simp] theorem fetched_status : (m.fetched env op next).status = m.status := rfl

@[simp] theorem fetched_heap : (m.fetched env op next).heap = m.heap := rfl

@[simp] theorem fetched_register (index : UInt8) :
    (m.fetched env op next).register index = m.register index := rfl

end Fetched

/-! ## Section 2: Leaving a frame -/

section Leave

variable (m : Machine Ω)

omit [HostData Ω]

/-- The frame of `m` was left: the machine goes on with the frame that waited for it, or
    halts if none did. -/
def HasLeft (m m' : Machine Ω) : Prop :=
  match m.callers with
  | [] => m'.status = .halt
  | caller :: callers => m'.status = m.status ∧ m'.frame = caller ∧ m'.callers = callers

/-- The last frame stays where it is when the machine halts. -/
theorem leave_of_nil (h : m.callers = []) : m.leave = { m with status := .halt } := by
  unfold leave
  rw [h]

/-- The innermost frame that waits goes on. -/
theorem leave_of_cons {caller : Frame} {callers : List Frame}
    (h : m.callers = caller :: callers) :
    m.leave.status = m.status ∧ m.leave.frame = caller ∧ m.leave.callers = callers := by
  unfold leave
  rw [h]
  dsimp only
  split
  · exact ⟨rfl, rfl, rfl⟩
  · exact ⟨rfl, rfl, rfl⟩

theorem hasLeft_leave : HasLeft m m.leave := by
  unfold HasLeft
  split
  · next h => rw [m.leave_of_nil h]
  · next h => exact m.leave_of_cons h

@[simp] theorem leave_stack : m.leave.stack = m.stack := by
  unfold leave
  split
  · rfl
  · dsimp only
    split <;> rfl

@[simp] theorem leave_heap : m.leave.heap = m.heap := by
  unfold leave
  split
  · rfl
  · dsimp only
    split <;> rfl

@[simp] theorem leave_faultSite : m.leave.faultSite = m.faultSite := by
  unfold leave
  split
  · rfl
  · dsimp only
    split <;> rfl

end Leave

/-! ## Section 3: One step -/

omit [HostData Ω] in
/-- In code that consists of instructions, the one behind those that the frame has passed
    is fetched. -/
theorem fetch_of_placed (env : Env Ω) (m : Machine Ω) (front : List (Instr UInt32))
    (i : Instr UInt32) (back : List (Instr UInt32))
    (hcode : m.frame.context.code.toList = (front ++ i :: back).flatMap Instr.encode)
    (hsize : m.frame.context.code.size < UInt32.size)
    (hip : m.frame.ip = placedLength front) :
    fetch env { m with offset := m.frame.ip } =
      (.ok i, m.fetched env i.op (placedLength (front ++ [i]))) := by
  have hsplit : m.frame.context.code.toList =
      front.flatMap Instr.encode ++ i.encode ++ back.flatMap Instr.encode := by
    rw [hcode, List.flatMap_append, List.flatMap_cons, List.append_assoc]
  have hlen : i.encode.length ≤ m.frame.context.code.size := by
    rw [← Array.length_toList, hsplit, List.length_append, List.length_append]
    omega
  have hlimit : UInt32.size < UInt64.size := by decide
  have hnext : placedLength (front ++ [i]) = m.frame.ip + i.encodedLength := by
    unfold placedLength at hip ⊢
    rw [List.flatMap_append, List.flatMap_singleton, List.length_append, i.length_encode, hip]
  rw [hnext]
  exact fetch_of_stands env m i (i.fits_of_length (by omega)) hsplit hip

/-- A step at an instruction executes it with the frame already behind it. -/
theorem step_of_placed (env : Env Ω) (m : Machine Ω) (front : List (Instr UInt32))
    (i : Instr UInt32) (back : List (Instr UInt32))
    (hcode : m.frame.context.code.toList = (front ++ i :: back).flatMap Instr.encode)
    (hsize : m.frame.context.code.size < UInt32.size)
    (hip : m.frame.ip = placedLength front) :
    m.step env = (m.fetched env i.op (placedLength (front ++ [i]))).exec env i := by
  have hlen : placedLength front < m.frame.context.code.size := by
    have hpos := i.encodedLength_pos
    rw [← i.length_encode] at hpos
    rw [← Array.length_toList, hcode, List.flatMap_append, List.flatMap_cons, List.length_append,
      List.length_append]
    unfold placedLength
    omega
  have hend : m.frame.atEnd = false := by
    unfold Frame.atEnd
    rw [decide_eq_false_iff_not]
    omega
  unfold step
  rw [hend, if_neg Bool.false_ne_true, m.fetch_of_placed env front i back hcode hsize hip]

/-- What is fetched is executed. -/
theorem step_of_fetch {m m' : Machine Ω} {i : Instr UInt32} (hend : m.frame.atEnd = false)
    (hfetch : fetch env { m with offset := m.frame.ip } = (.ok i, m')) :
    m.step env = m'.exec env i := by
  unfold step
  rw [hend, if_neg Bool.false_ne_true, hfetch]

/-- What cannot be fetched is a fault. -/
theorem step_of_fetch_error {m m' : Machine Ω} {f : Fault} (hend : m.frame.atEnd = false)
    (hfetch : fetch env { m with offset := m.frame.ip } = (.error f, m')) :
    m.step env = (.error f, m') := by
  unfold step
  rw [hend, if_neg Bool.false_ne_true, hfetch]

/-- At the end of its code, a frame is left. -/
theorem step_of_atEnd (m : Machine Ω) (h : m.frame.context.code.size ≤ m.frame.ip) :
    m.step env = (.ok (), m.leave) := by
  have hend : m.frame.atEnd = true := decide_eq_true h
  unfold step
  rw [if_pos hend]

/-! ## Section 4: Before the first step -/

omit [HostData Ω] in
/-- A run that starts inside the code is barred by the context only. -/
theorem checkStart_start_eq (m : Machine Ω) {n : Nat} (hn : n ≤ env.entry.code.size) :
    (m.start env n).checkStart env = env.config.checkContext env.entry := by
  have hin : ¬ (m.start env n).frame.context.code.size < (m.start env n).frame.ip :=
    Nat.not_lt.mpr hn
  unfold checkStart
  rw [if_neg hin]
  show (env.config.checkContext env.entry >>= fun _ => .ok ()) = _
  cases env.config.checkContext env.entry with
  | error f => rfl
  | ok _ => rfl

/-- With registers enough for a dispatcher no context is barred. -/
theorem checkContext_of_le {config : Config} (c : Context)
    (hreg : dispatcherRegisters ≤ config.registers) : config.checkContext c = .ok () := by
  unfold Config.checkContext
  rw [decide_eq_false (Nat.not_lt.mpr hreg), Bool.and_false, if_neg Bool.false_ne_true]

end ContractVM.Machine
