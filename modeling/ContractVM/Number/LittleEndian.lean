/-! # Little-endian words

    A natural number as a fixed count of bytes, the least significant first. -/

namespace ContractVM.LittleEndian

/-- The lowest `width` bytes of a number. -/
def bytes : Nat → Nat → List UInt8
  | 0, _ => []
  | width + 1, n => UInt8.ofNat n :: bytes width (n / 256)

/-- The number that a row of bytes stands for. -/
def value : List UInt8 → Nat
  | [] => 0
  | b :: rest => b.toNat + 256 * value rest

/-- How many numbers a row of `width` bytes can stand for. -/
def capacity : Nat → Nat
  | 0 => 1
  | width + 1 => 256 * capacity width

@[simp] theorem length_bytes (width n : Nat) : (bytes width n).length = width := by
  induction width generalizing n with
  | zero => rfl
  | succ width ih => simp [bytes, ih]

/-- A number that fits the width is kept. -/
theorem value_bytes {width n : Nat} (h : n < capacity width) : value (bytes width n) = n := by
  induction width generalizing n with
  | zero =>
    simp only [capacity] at h
    simp only [bytes, value]
    omega
  | succ width ih =>
    simp only [capacity] at h
    have hq : n / 256 < capacity width := by omega
    simp only [bytes, value, ih hq, UInt8.toNat_ofNat']
    omega

/-- A row of bytes stands for a number that fits it. -/
theorem value_lt (bs : List UInt8) : value bs < capacity bs.length := by
  induction bs with
  | nil => simp [value, capacity]
  | cons b rest ih =>
    have hb := b.toNat_lt
    simp only [value, List.length_cons, capacity]
    omega

/-- Each row of bytes is the written form of its number. -/
theorem bytes_value (bs : List UInt8) : bytes bs.length (value bs) = bs := by
  induction bs with
  | nil => rfl
  | cons b rest ih =>
    have hb := b.toNat_lt
    have hlow : UInt8.ofNat (b.toNat + 256 * value rest) = b := by
      apply UInt8.toNat_inj.mp
      simp only [UInt8.toNat_ofNat']
      omega
    have hhigh : (b.toNat + 256 * value rest) / 256 = value rest := by omega
    simp only [value, List.length_cons, bytes, hlow, hhigh, ih]

end ContractVM.LittleEndian
