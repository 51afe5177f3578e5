import ContractVM.Machine.Exec

/-! # Registers, jumps and fresh frames

    What reading finds after writing: the written value in its register, and in all
    others what was there before.  A jump inside the code moves the frame and nothing
    else; a fresh frame is empty, and the current one waits for it. -/

namespace ContractVM

/-- The registers of a fresh frame are empty. -/
theorem Frame.fresh_register {config : Config} (c : Context) (ip : Nat) {k : Nat}
    (hk : k < config.registers) : (Frame.fresh config c ip).registers[k]? = some .none := by
  unfold fresh
  rw [Array.getElem?_replicate, if_pos hk]

namespace Machine

variable {Ω : Type} (m : Machine Ω)

theorem register_eq_ok {index : UInt8} {v : Value} :
    m.register index = .ok v ↔ m.frame.registers[index.toNat]? = some v := by
  unfold register readRegister
  cases m.frame.registers[index.toNat]? with
  | none => simp
  | some w => simp

@[simp] theorem setRegister_size (index : UInt8) (v : Value) :
    (m.setRegister index v).frame.registers.size = m.frame.registers.size :=
  Array.size_setIfInBounds

/-- A written register holds what was written. -/
theorem setRegister_self {index : UInt8} (v : Value)
    (h : index.toNat < m.frame.registers.size) :
    (m.setRegister index v).frame.registers[index.toNat]? = some v := by
  show (m.frame.registers.setIfInBounds index.toNat v)[index.toNat]? = some v
  rw [Array.getElem?_setIfInBounds_self_of_lt h]

/-- The other registers keep what they hold. -/
theorem setRegister_of_ne {index : UInt8} (v : Value) {k : Nat} (h : k ≠ index.toNat) :
    (m.setRegister index v).frame.registers[k]? = m.frame.registers[k]? := by
  show (m.frame.registers.setIfInBounds index.toNat v)[k]? = _
  rw [Array.getElem?_setIfInBounds_ne (Ne.symm h)]

/-- The same for registers as instructions name them. -/
theorem register_setRegister {index : UInt8} {v : Value} (hthere : m.register index = .ok v)
    (w : Value) : (m.setRegister index w).register index = .ok w := by
  have hread := m.register_eq_ok.mp hthere
  obtain ⟨hlt, -⟩ := Array.getElem?_eq_some_iff.mp hread
  exact (register_eq_ok _).mpr (m.setRegister_self w hlt)

theorem register_setRegister_of_ne {index other : UInt8} (hne : other ≠ index) (w : Value) :
    (m.setRegister index w).register other = m.register other := by
  have hnat : other.toNat ≠ index.toNat := by
    intro heq
    exact hne (UInt8.toNat_inj.mp heq)
  unfold register readRegister
  rw [m.setRegister_of_ne w hnat, m.setRegister_size]

/-- A value can be stored in any register that there is. -/
theorem assign_of_lt {index : UInt8} (v : Value) (h : index.toNat < m.frame.registers.size) :
    m.assign index v = (.ok (), m.setRegister index v) := by
  obtain ⟨w, hw⟩ : ∃ w, m.frame.registers[index.toNat]? = some w :=
    ⟨_, Array.getElem?_eq_getElem h⟩
  unfold assign
  rw [m.register_eq_ok.mpr hw]

/-- A jump inside the code only moves the frame. -/
theorem jump_of_le {target : UInt32} (h : target.toNat ≤ m.frame.context.code.size) :
    m.jump target = (.ok (), { m with frame := { m.frame with ip := target.toNat } }) := by
  unfold jump checkTarget
  rw [if_pos h]

/-- Below the limit of frames, a fresh frame is entered and the current one waits. -/
theorem enter_of_lt {config : Config} {c : Context} {ip : Nat}
    (h : m.depth < config.callDepth) :
    m.enter config c ip =
      (.ok (), { m with frame := Frame.fresh config c ip, callers := m.frame :: m.callers }) := by
  unfold enter
  rw [if_neg (Nat.not_le.mpr h)]

end Machine

end ContractVM
