import ContractVM.Command.Execute
import ContractVM.Proofs.Assembly.Printed
import ContractVM.Proofs.Machine.Interop
import ContractVM.Proofs.Machine.Registers
import ContractVM.Proofs.Machine.Steps

/-! # Printed scalars in registers

    A scalar travels from its notation through the assembler and the code into a register:

    * **One instruction**: the script that loads a literal runs in three steps, which load
      it, leave the frame, and see that the machine has halted.
    * **The round trip** starts with a scalar and ends with the same scalar in register 0.
      It takes code that offsets can reach, and a machine that has a register. -/

namespace ContractVM

open Assembly

variable {Ω : Type} [HostData Ω]

/-! ## Section 1: Running one instruction -/

namespace Machine

variable {env : Env Ω} {l : Literal}

/-- At the start of its script, the machine loads the literal and stands at the end. -/
theorem step_loadScript {m : Machine Ω} (hscript : env.entry.script = loadScript l)
    (hfits : l.encode.length + 2 < UInt32.size) (hreg : 0 < env.config.registers) :
    ∃ m₁, (m.start env 0).step env = (.ok (), m₁) ∧ m₁.status = .running ∧ m₁.callers = [] ∧
      m₁.frame.context.code.size ≤ m₁.frame.ip ∧ m₁.register 0 = .ok l.value := by
  let i : Instr UInt32 := ⟨.load, (0, l, ())⟩
  have hcontext : (m.start env 0).frame.context = env.entry := rfl
  have hcode : env.entry.code = i.encode.toArray := congrArg Script.code hscript
  have hsize : env.entry.code.size = l.encode.length + 2 := by
    rw [Context.code, hscript, size_loadScript]
  -- the code is this one instruction, so that behind it the frame is at its end
  have hend : placedLength [i] = env.entry.code.size := by
    unfold placedLength
    rw [List.flatMap_singleton, hcode, List.size_toArray]
  have hstep := (m.start env 0).step_of_placed env [] i [] (by rw [hcontext, hcode]; simp)
    (by rw [hcontext, hsize]; exact hfits) rfl
  have hin : (0 : UInt8).toNat <
      ((m.start env 0).fetched env i.op (placedLength [i])).frame.registers.size := by
    show 0 < (Array.replicate env.config.registers Value.none).size
    rw [Array.size_replicate]
    exact hreg
  refine ⟨_, hstep.trans (assign_of_lt _ l.value hin), rfl, rfl, ?_, ?_⟩
  · show env.entry.code.size ≤ placedLength [i]
    exact Nat.le_of_eq hend.symm
  · exact (register_eq_ok _).mpr (setRegister_self _ _ hin)

/-- A run of that script ends with the literal in register 0. -/
theorem execute_loadScript {m : Machine Ω} (hscript : env.entry.script = loadScript l)
    (hfits : l.encode.length + 2 < UInt32.size) (hreg : 0 < env.config.registers)
    (hidle : m.status ≠ .running) (fuel : Nat) :
    ∃ m', m.execute env (fuel + 3) = some (.ok (), m') ∧ m'.register 0 = .ok l.value := by
  obtain ⟨m₁, hload, hrun, hcallers, hend, hvalue⟩ := step_loadScript (m := m) hscript hfits hreg
  have hleave : m₁.step env = (.ok (), { m₁ with status := .halt }) := by
    rw [m₁.step_of_atEnd hend, m₁.leave_of_nil hcallers]
  have hsteps : steps env (fuel + 3) (m.start env 0) =
      some (.ok (), { m₁ with status := .halt }) := by
    have hstart : (m.start env 0).status = .running := rfl
    -- the first step loads, the second one leaves, and the third finds the machine halted
    rw [steps, if_pos hstart, hload]
    dsimp only
    rw [steps, if_pos hrun, hleave]
    dsimp only
    rw [steps, if_neg Status.noConfusion]
  -- without public methods, the script needs no registers for a dispatcher
  have hcheck : (m.start env 0).checkStart env = .ok () := by
    rw [checkStart_start_eq m (Nat.zero_le _)]
    unfold Config.checkContext
    rw [hscript]
    rfl
  refine ⟨{ m₁ with status := .halt }, ?_, hvalue⟩
  unfold execute runFrom
  rw [requestRun_of_entry hidle rfl]
  unfold run
  dsimp only
  rw [hcheck, hsteps]
  rfl

end Machine

/-! ## Section 2: The round trip -/

/-- **Printed scalars read back.** Take any scalar with a notation: none, a Boolean, a number
    or bytes of any size, a timestamp, an enum, or a text of printable ASCII, tabs and line
    feeds.  Its notation is read as a literal of this value.  The line that loads it is
    assembled if and only if its code is shorter than 4 GiB, and then a machine that has a
    register ends a run of this script with the scalar in register 0. -/
theorem printed_scalars_read_back (heap : Heap Ω) {v : Value} (hv : v.HasNotation) :
    ∃ l : Literal, l.value = v ∧ parseLiteral (heap.display v) = .ok l ∧
      (UInt32.size ≤ l.encode.length + 2 →
        assemble (loadLine (heap.display v)) = .error ⟨1, 1, .tooLarge⟩) ∧
      (l.encode.length + 2 < UInt32.size →
        ∃ script, assemble (loadLine (heap.display v)) = .ok script ∧
          ∀ (env : Env Ω) (m : Machine Ω), env.entry.script = script →
            0 < env.config.registers → m.status ≠ .running →
              ∀ fuel, ∃ m', m.execute env (fuel + 3) = some (.ok (), m') ∧
                m'.register 0 = .ok v) := by
  obtain ⟨l, rfl⟩ := hv.exists_literal
  have hparse := parseLiteral_display heap hv
  have hassemble := assemble_loadLine (endsLine_display heap hv) hparse
  refine ⟨l, rfl, hparse, ?_, ?_⟩
  · intro hlarge
    rw [hassemble, if_pos hlarge]
  · intro hfits
    refine ⟨loadScript l, ?_, ?_⟩
    · rw [hassemble, if_neg (Nat.not_le.mpr hfits)]
    · intro env m hscript hreg hidle fuel
      exact Machine.execute_loadScript hscript hfits hreg hidle fuel

/-- A text with commas, a number sign, quotes, a backslash, a tab and a line feed. -/
theorem printed_text_reads_back :
    let v : Value := .string "a, b # \"c\" \\ \t\n"
    v.HasNotation ∧ ∃ script,
      assemble (loadLine ((Heap.empty : Heap Empty).display v)) = .ok script ∧
      let env : Env Empty := ⟨{}, Registry.empty.unregistered "main" script, .empty, .empty⟩
      ∃ m', (Machine.initial env.config env.entry .empty).execute env 3 = some (.ok (), m') ∧
        m'.register 0 = .ok v := by
  intro v
  have hv : v.HasNotation := by
    show ∀ c ∈ "a, b # \"c\" \\ \t\n".toList, Text.isQuotable c = true
    exact List.all_eq_true.mp (by decide)
  obtain ⟨l, hl, -, -, hload⟩ := printed_scalars_read_back (Heap.empty : Heap Empty) hv
  change l.value = .string "a, b # \"c\" \\ \t\n" at hl
  cases l with
  | string s =>
    cases hl
    obtain ⟨script, hassemble, hrun⟩ := hload (by decide +kernel)
    refine ⟨hv, script, hassemble, ?_⟩
    intro env
    exact hrun env _ rfl (Nat.zero_lt_succ 31) Status.noConfusion 0
  | _ => cases hl

/-- Bytes that are too many for offsets are read as a literal, but not assembled. -/
theorem assemble_long_bytes (heap : Heap Ω) {bs : Array UInt8} (h : UInt32.size ≤ bs.size) :
    assemble (loadLine (heap.display (.bytes bs))) = .error ⟨1, 1, .tooLarge⟩ := by
  have hsize : bs.size ≤ (Literal.bytes bs).encode.length := (Literal.bytes bs).payloadSize_le
  have hnotation : (Literal.bytes bs).value.HasNotation := trivial
  have hassemble := assemble_loadLine (endsLine_display heap hnotation)
    (parseLiteral_display heap hnotation)
  exact hassemble.trans (if_pos (by omega))

/-- The notation of 4 GiB of zeros cannot be loaded; and on a machine without registers, that
    of a Boolean is assembled, but the run faults. -/
theorem notations_not_loaded :
    let zeros : Value := .bytes (Array.replicate UInt32.size 0)
    zeros.HasNotation ∧
      assemble (loadLine ((Heap.empty : Heap Empty).display zeros)) = .error ⟨1, 1, .tooLarge⟩ ∧
      ∃ script, assemble (loadLine ((Heap.empty : Heap Empty).display (.bool true))) = .ok script ∧
        let env : Env Empty :=
          ⟨{ registers := 0 }, Registry.empty.unregistered "main" script, .empty, .empty⟩
        ∃ m', (Machine.initial env.config env.entry .empty).execute env 3 =
          some (.error (.invalidRegisterIndex 0 0), m') := by
  intro zeros
  refine ⟨trivial, assemble_long_bytes _ ?_, ?_⟩
  · exact Nat.le_of_eq Array.size_replicate.symm
  · have hparse :
        parseLiteral ((Heap.empty : Heap Empty).display (.bool true)) = .ok (.bool true) :=
      parseLiteral_display Heap.empty (l := .bool true) trivial
    have hends := endsLine_display (Heap.empty : Heap Empty) (v := .bool true) trivial
    have hassemble := assemble_loadLine hends hparse
    have hsmall : ¬UInt32.size ≤ (Literal.bool true).encode.length + 2 := by decide
    exact ⟨_, hassemble.trans (if_neg hsmall), _, rfl⟩

end ContractVM
