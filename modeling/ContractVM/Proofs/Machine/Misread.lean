import ContractVM.Machine.Exec
import ContractVM.Proofs.Result

/-! # Faults of unreadable code

    Two kinds of faults say that the code itself is wrong: bytes that are no
    instruction, and a jump out of the code.  What computes on values never raises
    them: its results are `Legible`. -/

namespace ContractVM

/-- Does the fault say that code cannot be read, or that a jump leaves it? -/
def Fault.isMisread : Fault → Bool
  | .code _ => true
  | .invalidJumpTarget _ _ => true
  | _ => false

/-- There is a result, or a fault that does not blame the code. -/
def Legible {α : Type} (r : Except Fault α) : Prop :=
  ∀ f, r = .error f → f.isMisread = false

namespace Legible

variable {α β : Type}

theorem ok (a : α) : Legible (.ok a) := by
  intro f h
  cases h

theorem error {f : Fault} (h : f.isMisread = false) : Legible (.error f : Except Fault α) := by
  intro g hg
  cases hg
  exact h

/-- A computation of several parts does not blame the code if no part does. -/
theorem bind {r : Except Fault α} {g : α → Except Fault β} (hr : Legible r)
    (hg : ∀ a, Legible (g a)) : Legible (r >>= g) := by
  intro f h
  rcases Except.bind_eq_error.mp h with hfirst | ⟨a, -, hsecond⟩
  · exact hr f hfirst
  · exact hg a f hsecond

theorem map {r : Except Fault α} {g : α → β} (hr : Legible r) : Legible (r.map g) := by
  cases r with
  | ok a => exact ok (g a)
  | error f => exact error (hr f rfl)

end Legible

/-! ## Section 1: Values -/

namespace Value

variable (v w : Value) (instruction : String)

theorem legible_mismatch {α : Type} (expected : Expectation) :
    Legible (.error (v.mismatch instruction expected) : Except Fault α) :=
  .error rfl

theorem legible_asBool : Legible (v.asBool instruction) := by
  unfold asBool
  split
  · exact .ok _
  · split
    · exact .ok _
    · split
      · exact .ok _
      · exact legible_mismatch _ instruction _
  · exact v.legible_mismatch instruction _

theorem legible_strictBool : Legible (v.strictBool instruction) := by
  unfold strictBool
  split
  · exact .ok _
  · exact v.legible_mismatch instruction _

theorem legible_asNumber : Legible (v.asNumber instruction) := by
  unfold asNumber
  split
  · exact .ok _
  · exact v.legible_mismatch instruction _

theorem legible_strictString : Legible (v.strictString instruction) := by
  unfold strictString
  split
  · exact .ok _
  · exact v.legible_mismatch instruction _

theorem legible_asStruct : Legible (v.asStruct instruction) := by
  unfold asStruct
  split
  · exact .ok _
  · exact v.legible_mismatch instruction _

theorem legible_asKey : Legible (v.asKey instruction) := by
  unfold asKey
  split
  · exact .ok _
  · exact v.legible_mismatch instruction _

theorem legible_size : Legible (v.size instruction) := by
  unfold size
  split
  · exact .ok _
  · exact .ok _
  · exact v.legible_mismatch instruction _

theorem legible_cat : Legible (v.cat w instruction) := by
  unfold cat
  split <;> first | exact .ok _ | exact legible_mismatch _ instruction _

theorem legible_range (index length : Nat) : Legible (v.range index length instruction) := by
  unfold range
  dsimp only
  split
  · exact .error rfl
  · apply (v.legible_size instruction).bind
    intro size
    split
    · exact .error rfl
    · split
      · split
        · exact .ok _
        · exact .error rfl
      · exact .ok _
      · exact v.legible_mismatch instruction _

theorem legible_right (length : Nat) : Legible (v.right length instruction) := by
  apply (v.legible_size instruction).bind
  intro size
  split
  · exact .error rfl
  · exact v.legible_range instruction _ _

theorem legible_toText : Legible (v.toText instruction) := by
  unfold toText
  split
  · exact .ok _
  · exact .ok _
  · exact .ok _
  · exact .ok _
  · exact .ok _
  · split
    · exact .ok _
    · exact .error rfl
  · exact v.legible_mismatch instruction _

/-- A conversion of numbers may find the number out of range. -/
theorem legible_word {α : Type} {n : Int} {f : UInt32 → α} {problem : RangeProblem} :
    Legible (match word32? n with
      | .some t => .ok (f t)
      | .none => .error (.outOfRange instruction problem) : Except Fault α) := by
  split
  · exact .ok _
  · exact .error rfl

theorem legible_cast (t : ValueType) : Legible (v.cast t instruction) := by
  unfold cast
  -- one case for each type that is asked for
  split
  · exact .ok _
  · unfold toBool
    split
    · exact (legible_asBool _ instruction).map
    · exact (legible_asBool _ instruction).map
    · exact .ok _
    · exact v.legible_mismatch instruction _
  · unfold toNumber
    split <;> first | exact .ok _ | exact legible_mismatch _ instruction _ | skip
    split
    · exact .ok _
    · exact legible_mismatch _ instruction _
  · exact v.legible_toText instruction
  · unfold toBytes
    split <;> first | exact .ok _ | exact legible_mismatch _ instruction _
  · unfold toTimestamp
    split
    · exact .ok _
    · exact legible_word instruction
    · exact v.legible_mismatch instruction _
  · unfold toEnum
    split
    · exact .ok _
    · exact legible_word instruction
    · exact v.legible_mismatch instruction _
  · split
    · exact .ok _
    · exact v.legible_mismatch instruction _
  · split
    · exact .ok _
    · exact v.legible_mismatch instruction _

end Value

theorem legible_toIndex (n : Int) (instruction : String) : Legible (toIndex n instruction) := by
  unfold toIndex
  split
  · exact .ok _
  · exact .error rfl

theorem legible_toShift (n : Int) (instruction : String) : Legible (toShift n instruction) := by
  unfold toShift
  split
  · exact .ok _
  · exact .error rfl

/-! ## Section 2: The heap -/

namespace Heap

variable {Ω : Type} (h : Heap Ω) (v w : Value) (instruction : String)

theorem legible_asContext : Legible (h.asContext v instruction) := by
  unfold asContext asHost
  split
  · split
    · exact .ok _
    · exact Value.legible_mismatch _ instruction _
  · exact v.legible_mismatch instruction _

theorem legible_count : Legible (h.count v instruction) := by
  unfold count
  split
  · exact .ok _
  · exact .ok _
  · exact Value.legible_mismatch _ instruction _

theorem legible_cast (t : ValueType) : Legible (h.cast v t instruction) := by
  unfold cast
  split
  · exact .ok _
  · exact (v.legible_cast instruction t).bind fun _ => .ok _

variable [HostData Ω]

theorem legible_deepCopy : Legible (h.deepCopy v instruction) := by
  unfold deepCopy
  split
  · exact .ok _
  · exact .error rfl

theorem legible_equal : Legible (h.equal v w instruction) := by
  unfold equal
  split
  · exact .ok _
  · exact .ok _
  · exact .error rfl

theorem legible_get : Legible (h.get v w instruction) := by
  unfold get
  apply (w.legible_asKey instruction).bind
  intro _
  split
  · exact .ok _
  · exact (v.legible_asStruct instruction).bind fun _ => .ok _

theorem legible_put (key : Value) : Legible (h.put v key w instruction).result := by
  unfold put
  split
  · next f hkey => exact .error (key.legible_asKey instruction f hkey)
  · dsimp only
    split
    · next f hstruct => exact .error (Value.legible_asStruct _ instruction f hstruct)
    · split
      · next f hput =>
        unfold putEntry at hput
        split at hput
        · cases hput
        · cases hput
          exact .error rfl
        · cases hput
          exact .error rfl
      · exact .ok _

end Heap

/-! ## Section 3: Operands in registers -/

namespace Machine

variable {Ω : Type} (m : Machine Ω) (instruction : String) (index : UInt8)

theorem legible_register : Legible (m.register index) := by
  unfold register readRegister
  split
  · exact .ok _
  · exact .error rfl

theorem legible_stringIn : Legible (m.stringIn instruction index) :=
  (m.legible_register index).bind fun v => v.legible_strictString instruction

end Machine

/-- A context is found or unknown. -/
theorem Registry.legible_resolve (r : Registry) (name : String) : Legible (r.resolve name) := by
  unfold resolve
  split
  · exact .ok _
  · exact .error rfl

/-- A context may be entered, or the machine has too few registers for it. -/
theorem Config.legible_checkContext (config : Config) (c : Context) :
    Legible (config.checkContext c) := by
  unfold checkContext
  split
  · exact .error rfl
  · exact .ok _

end ContractVM
