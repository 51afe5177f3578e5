import ContractVM.Command.Execute
import ContractVM.Proofs.Machine.Registers
import Mathlib.Algebra.Ring.Int.Defs

/-! # Quotients and shifts

    Division and shifts of integers, however large these are.

    * **Division** rounds toward zero, and the remainder has the sign of the dividend or is zero.
    * **Shifts** multiply with powers of two and divide by them.  A shift to the right splits off
      the sign first, and so rounds like a division.
    * **Instructions** compute this wherever their operands stand, also in one register.  Divisors
      and counts that are not admitted are refused, whatever is in the other registers. -/

namespace ContractVM

/-! ## Section 1: Integers -/

namespace Arithmetic

/-- The quotient `q` and the remainder `r` of `x` by `y`, rounded toward zero. -/
structure Truncates (x y q r : Int) : Prop where
  recomposed : x = q * y + r
  smaller : r.natAbs < y.natAbs
  signed : r = 0 ∨ r.sign = x.sign

theorem truncates_quotient {y : Int} (hy : y ≠ 0) (x : Int) :
    Truncates x y (quotient x y) (remainder x y) where
  recomposed := (Int.tdiv_mul_add_tmod x y).symm
  smaller := by
    show (x.tmod y).natAbs < y.natAbs
    rw [Int.natAbs_tmod]
    exact Nat.mod_lt _ (Int.natAbs_pos.mpr hy)
  signed := by
    show x.tmod y = 0 ∨ (x.tmod y).sign = x.sign
    rw [Int.sign_tmod]
    by_cases hdvd : y ∣ x
    · exact .inl (Int.tmod_eq_zero_of_dvd hdvd)
    · exact .inr (if_neg hdvd)

theorem shiftLeft_eq_mul (x : Int) (n : Nat) : shiftLeft x n = x * power 2 n :=
  Int.shiftLeft_eq x n

/-- A shift rounds toward zero on both sides of it, since the sign is split off. -/
theorem shiftRight_eq_quotient (x : Int) (n : Nat) : shiftRight x n = quotient x (power 2 n) := by
  have hnonneg {z : Int} (hz : 0 ≤ z) : z >>> n = z.tdiv (2 ^ n) := by
    rw [Int.shiftRight_eq_div_pow, Int.tdiv_eq_ediv_of_nonneg hz]
    norm_cast
  show (if x < 0 then -((-x) >>> n) else x >>> n) = x.tdiv (2 ^ n)
  by_cases hx : x < 0
  · rw [if_pos hx, hnonneg (by omega), Int.neg_tdiv, Int.neg_neg]
  · rw [if_neg hx, hnonneg (by omega)]

theorem power_two_ne_zero (n : Nat) : power 2 n ≠ 0 :=
  Int.pow_ne_zero (by decide)

/-- What was shifted to the left comes back. -/
theorem shiftRight_shiftLeft (x : Int) (n : Nat) : shiftRight (shiftLeft x n) n = x := by
  rw [shiftRight_eq_quotient, shiftLeft_eq_mul]
  exact Int.mul_tdiv_cancel x (power_two_ne_zero n)

end Arithmetic

/-! ## Section 2: Instructions with two operands -/

/-- An instruction by its operand registers and its destination. -/
abbrev Operation := UInt8 → UInt8 → UInt8 → Instr UInt32

namespace Operation

def mul : Operation := fun a b dst => ⟨.mul, (a, b, dst, ())⟩
def div : Operation := fun a b dst => ⟨.div, (a, b, dst, ())⟩
def mod : Operation := fun a b dst => ⟨.mod, (a, b, dst, ())⟩
def shl : Operation := fun a b dst => ⟨.shl, (a, b, dst, ())⟩
def shr : Operation := fun a b dst => ⟨.shr, (a, b, dst, ())⟩
def pow : Operation := fun a b dst => ⟨.pow, (a, b, dst, ())⟩

/-- From the numbers `x` and `y` in its operand registers, the instruction computes `v`.  It stores
    it in the destination, and does nothing else.  Any of these registers may be the same. -/
def Computes (op : Operation) (x y v : Int) : Prop :=
  ∀ {Ω : Type} [HostData Ω] (env : Env Ω) (m : Machine Ω) (a b dst : UInt8),
    m.register a = .ok (.number x) → m.register b = .ok (.number y) →
    Machine.exec env m (op a b dst) = m.assign dst (.number v)

/-- With the number `y` in its second operand register, the instruction has the fault and leaves
    the machine as it was, whatever the other registers are. -/
def Refuses (op : Operation) (y : Int) (f : Fault) : Prop :=
  ∀ {Ω : Type} [HostData Ω] (env : Env Ω) (m : Machine Ω) (a b dst : UInt8),
    m.register b = .ok (.number y) → Machine.exec env m (op a b dst) = (.error f, m)

end Operation

namespace Machine

variable {Ω : Type} {m : Machine Ω} {a b dst : UInt8} {x y : Int} {instruction : String}

theorem numberIn_eq_ok (h : m.register a = .ok (.number x)) :
    m.numberIn instruction a = .ok x := by
  unfold numberIn
  rw [h]
  rfl

theorem binary_eq_assign (f : Int → Int → Int) (ha : m.register a = .ok (.number x))
    (hb : m.register b = .ok (.number y)) :
    m.binary instruction f a b dst = m.assign dst (.number (f x y)) := by
  unfold binary
  rw [numberIn_eq_ok ha, numberIn_eq_ok hb]
  rfl

theorem division_eq_assign (f : Int → Int → Int) (ha : m.register a = .ok (.number x))
    (hb : m.register b = .ok (.number y)) (hy : y ≠ 0) :
    m.division instruction f a b dst = m.assign dst (.number (f x y)) := by
  unfold division
  rw [numberIn_eq_ok ha, numberIn_eq_ok hb]
  show m.store dst (if y = 0 then _ else _) = _
  rw [if_neg hy]
  rfl

theorem division_by_zero (f : Int → Int → Int) (hb : m.register b = .ok (.number 0)) :
    m.division instruction f a b dst = (.error (.divisionByZero instruction), m) := by
  unfold division
  rw [numberIn_eq_ok hb]
  rfl

/-- The count is checked before the number is read. -/
theorem shiftIn_eq (hb : m.register b = .ok (.number y)) :
    m.shiftIn instruction b = toShift y instruction := by
  unfold shiftIn
  rw [numberIn_eq_ok hb]
  rfl

theorem counted_eq_assign (f : Int → Nat → Int) (ha : m.register a = .ok (.number x))
    (hb : m.register b = .ok (.number y)) (hy : 0 ≤ y ∧ y ≤ maxShift) :
    m.counted instruction f a b dst = m.assign dst (.number (f x y.toNat)) := by
  unfold counted
  rw [shiftIn_eq hb, numberIn_eq_ok ha]
  unfold toShift
  rw [if_pos hy]
  rfl

theorem counted_out_of_range (f : Int → Nat → Int) (hb : m.register b = .ok (.number y))
    (hy : ¬(0 ≤ y ∧ y ≤ maxShift)) :
    m.counted instruction f a b dst = (.error (.outOfRange instruction (.shift y)), m) := by
  unfold counted
  rw [shiftIn_eq hb]
  unfold toShift
  rw [if_neg hy]
  rfl

end Machine

/-! ## Section 3: What the instructions compute -/

namespace Operation

variable {x y n : Int}

theorem computes_mul (x y : Int) : Computes mul x y (x * y) :=
  fun _ _ _ _ _ ha hb => Machine.binary_eq_assign (· * ·) ha hb

theorem computes_div (x : Int) (hy : y ≠ 0) : Computes div x y (Arithmetic.quotient x y) :=
  fun _ _ _ _ _ ha hb => Machine.division_eq_assign Arithmetic.quotient ha hb hy

theorem computes_mod (x : Int) (hy : y ≠ 0) : Computes mod x y (Arithmetic.remainder x y) :=
  fun _ _ _ _ _ ha hb => Machine.division_eq_assign Arithmetic.remainder ha hb hy

theorem computes_shl (x : Int) (hn : 0 ≤ n ∧ n ≤ maxShift) :
    Computes shl x n (Arithmetic.shiftLeft x n.toNat) :=
  fun _ _ _ _ _ ha hb => Machine.counted_eq_assign Arithmetic.shiftLeft ha hb hn

theorem computes_shr (x : Int) (hn : 0 ≤ n ∧ n ≤ maxShift) :
    Computes shr x n (Arithmetic.shiftRight x n.toNat) :=
  fun _ _ _ _ _ ha hb => Machine.counted_eq_assign Arithmetic.shiftRight ha hb hn

theorem computes_pow (x : Int) (hn : 0 ≤ n ∧ n ≤ maxShift) :
    Computes pow x n (Arithmetic.power x n.toNat) :=
  fun _ _ _ _ _ ha hb => Machine.counted_eq_assign Arithmetic.power ha hb hn

end Operation

open Arithmetic Operation in
/-- **Division and shifts agree on integers of any size.**  Unless `y` is zero, `DIV` and `MOD`
    compute the quotient and the remainder of `x` by `y`, rounded toward zero.  For counts up to
    65536, `SHL` computes the product of `x` and the power of two that `POW` computes, `SHR` the
    quotient that `DIV` computes of these two, and `SHR` takes back `SHL`.  All other counts are
    out of range for `SHL`, `SHR` and `POW`, and `DIV` and `MOD` refuse to divide by zero.  The
    operands and the result may be in any registers, also in the same one. -/
theorem division_and_shifts_agree (x y n : Int) :
    (y ≠ 0 → Computes div x y (x.tdiv y) ∧ Computes mod x y (x.tmod y) ∧
      Truncates x y (x.tdiv y) (x.tmod y)) ∧
    (0 ≤ n ∧ n ≤ 65536 → ∃ power : Int, Computes pow 2 n power ∧
      Computes mul x power (x * power) ∧ Computes shl x n (x * power) ∧
      Computes shr (x * power) n x ∧
      Computes div x power (x.tdiv power) ∧ Computes shr x n (x.tdiv power) ∧
      power = 2 ^ n.toNat) ∧
    (¬(0 ≤ n ∧ n ≤ 65536) → Refuses shl n (.outOfRange "SHL" (.shift n)) ∧
      Refuses shr n (.outOfRange "SHR" (.shift n)) ∧
      Refuses pow n (.outOfRange "POW" (.shift n))) ∧
    Refuses div 0 (.divisionByZero "DIV") ∧ Refuses mod 0 (.divisionByZero "MOD") := by
  refine ⟨fun hy => ⟨computes_div x hy, computes_mod x hy, truncates_quotient hy x⟩,
    fun hn => ⟨power 2 n.toNat, computes_pow 2 hn, computes_mul x _, ?_, ?_,
      computes_div x (power_two_ne_zero _), ?_, rfl⟩, fun hn => ⟨?_, ?_, ?_⟩, ?_, ?_⟩
  · rw [← shiftLeft_eq_mul]
    exact computes_shl x hn
  · have hback : Computes shr (shiftLeft x n.toNat) n
        (shiftRight (shiftLeft x n.toNat) n.toNat) := computes_shr _ hn
    rwa [shiftRight_shiftLeft, shiftLeft_eq_mul] at hback
  · show Computes shr x n (quotient x (power 2 n.toNat))
    rw [← shiftRight_eq_quotient]
    exact computes_shr x hn
  · exact fun _ _ _ _ _ hb => Machine.counted_out_of_range shiftLeft hb hn
  · exact fun _ _ _ _ _ hb => Machine.counted_out_of_range shiftRight hb hn
  · exact fun _ _ _ _ _ hb => Machine.counted_out_of_range power hb hn
  · exact fun _ _ _ _ _ hb => Machine.division_by_zero quotient hb
  · exact fun _ _ _ _ _ hb => Machine.division_by_zero remainder hb

open Operation in
/-- A negative number is halved in place, by a division and by a shift.  A register may be both
    operands and the destination, and a negative count is refused. -/
theorem negative_number_is_halved_toward_zero :
    let c : Context := ⟨0, "main", .ofCode #[]⟩
    let env : Env Empty := ⟨{}, c, .empty, .empty⟩
    let m : Machine Empty :=
      { Machine.initial env.config c .empty with
        frame := ⟨c, #[.number (-7), .number 1, .number 2], 0⟩ }
    Machine.exec env m (div 0 2 0) = (.ok (), m.setRegister 0 (.number (-3))) ∧
    Machine.exec env m (mod 0 2 2) = (.ok (), m.setRegister 2 (.number (-1))) ∧
    Machine.exec env m (shr 0 1 0) = (.ok (), m.setRegister 0 (.number (-3))) ∧
    Machine.exec env m (shl 1 1 1) = (.ok (), m.setRegister 1 (.number 2)) ∧
    Machine.exec env m (shl 2 0 1) = (.error (.outOfRange "SHL" (.shift (-7))), m) := by
  intro c env m
  obtain ⟨hdivided, hshifted, -⟩ := division_and_shifts_agree (-7) 2 1
  obtain ⟨hdiv, hmod, -⟩ := hdivided (by decide)
  obtain ⟨power, -, -, -, -, -, hshr, rfl⟩ := hshifted (by decide)
  obtain ⟨-, hself, -⟩ := division_and_shifts_agree 1 1 1
  obtain ⟨power, -, -, hshl, -, -, -, rfl⟩ := hself (by decide)
  obtain ⟨-, -, hrefused, -⟩ := division_and_shifts_agree 0 0 (-7)
  obtain ⟨hbelow, -⟩ := hrefused (by decide)
  exact ⟨hdiv env m 0 2 0 rfl rfl, hmod env m 0 2 2 rfl rfl, hshr env m 0 1 0 rfl rfl,
    hshl env m 1 1 1 rfl rfl, hbelow env m 2 0 1 rfl⟩

end ContractVM
