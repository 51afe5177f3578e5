/-! # Two's complement numbers of any length

    An integer is written as the shortest non-empty row of little-endian bytes
    whose top bit is its sign.  Reading accepts every row, the empty one as zero. -/

namespace ContractVM.TwosComplement

/-- The lowest byte of an integer. -/
def lowByte (n : Int) : UInt8 :=
  UInt8.ofNat (n % 256).toNat

/-- The value of a byte that carries the sign. -/
def signed (b : UInt8) : Int :=
  if b.toNat < 128 then b.toNat else (b.toNat : Int) - 256

/-- The shortest written form of an integer. -/
def encode (n : Int) : List UInt8 :=
  if -128 ≤ n ∧ n < 128 then [lowByte n] else lowByte n :: encode (n / 256)
termination_by n.natAbs
decreasing_by omega

/-- The integer that a row of bytes stands for. -/
def decode : List UInt8 → Int
  | [] => 0
  | [b] => signed b
  | b :: rest => b.toNat + 256 * decode rest

theorem toNat_lowByte (n : Int) : ((lowByte n).toNat : Int) = n % 256 := by
  simp only [lowByte, UInt8.toNat_ofNat']
  omega

theorem encode_ne_nil (n : Int) : encode n ≠ [] := by
  rw [encode]
  split <;> simp

theorem decode_cons {b : UInt8} {rest : List UInt8} (h : rest ≠ []) :
    decode (b :: rest) = b.toNat + 256 * decode rest := by
  cases rest with
  | nil => exact absurd rfl h
  | cons c rest => rfl

/-- What is written reads back. -/
theorem decode_encode (n : Int) : decode (encode n) = n := by
  fun_induction encode n with
  | case1 n h =>
    have hlow := toNat_lowByte n
    simp only [decode, signed]
    split <;> omega
  | case2 n h ih =>
    have hlow := toNat_lowByte n
    rw [decode_cons (encode_ne_nil _), ih]
    omega

end ContractVM.TwosComplement
