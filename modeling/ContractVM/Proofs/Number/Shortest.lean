import ContractVM.Number.LittleEndian
import ContractVM.Number.TwosComplement
import Mathlib.Data.Int.ModEq

/-! # Shortest two's complement rows

    What a row of bytes represents is told here without reading or writing it: a little-endian
    number, taken to the integer of the same residue that is closest to zero.

    * **Reading** a row finds what it represents, and a row represents nothing else.
    * **Writing** an integer makes a row that represents it, and no non-empty row that does is
      shorter.  There is only one row of that length. -/

namespace ContractVM.TwosComplement

open LittleEndian (value capacity)

/-- Does the row represent the integer?  The range of a row reaches as far below zero as above, and
    it holds one integer of each residue. -/
structure Represents (bs : List UInt8) (n : Int) : Prop where
  lower : -(capacity bs.length : Int) ≤ 2 * n
  upper : 2 * n < capacity bs.length
  residue : n % capacity bs.length = value bs

/-- Is the row the shortest non-empty one that represents the integer? -/
structure Shortest (bs : List UInt8) (n : Int) : Prop where
  nonempty : bs ≠ []
  represents : Represents bs n
  shortest : ∀ cs, cs ≠ [] → Represents cs n → bs.length ≤ cs.length

variable {bs cs : List UInt8} {n : Int}

/-! ## Section 1: Reading -/

/-- A byte in front of a row that represents something adds to it as the lowest one. -/
theorem Represents.cons {rest : List UInt8} (h : Represents rest n) (hne : rest ≠ [])
    (b : UInt8) : Represents (b :: rest) (b.toNat + 256 * n) := by
  have hb := b.toNat_lt
  obtain ⟨lower, upper, residue⟩ := h
  have hcapacity : (capacity (b :: rest).length : Int) = 256 * capacity rest.length := by
    simp only [List.length_cons, capacity]
    omega
  have hvalue : (value (b :: rest) : Int) = b.toNat + 256 * value rest := by
    simp only [value]
    omega
  -- the range of a non-empty row has an even number of integers
  obtain ⟨half, hhalf⟩ : ∃ half : Nat, capacity rest.length = 2 * half := by
    obtain ⟨c, rest', rfl⟩ := List.exists_cons_of_ne_nil hne
    refine ⟨128 * capacity rest'.length, ?_⟩
    simp only [List.length_cons, capacity]
    omega
  refine ⟨?_, ?_, ?_⟩
  · rw [hcapacity]
    omega
  · rw [hcapacity]
    omega
  · have hlt := LittleEndian.value_lt rest
    have hdiv := Int.mul_ediv_add_emod n (capacity rest.length)
    rw [residue] at hdiv
    rw [hcapacity, hvalue]
    have hsplit : (b.toNat : Int) + 256 * n =
        b.toNat + 256 * value rest + 256 * capacity rest.length * (n / capacity rest.length) := by
      rw [mul_assoc]
      omega
    rw [hsplit, Int.add_mul_emod_self_left]
    exact Int.emod_eq_of_lt (by omega) (by omega)

/-- What is read is what the row represents. -/
theorem represents_decode (bs : List UInt8) : Represents bs (decode bs) := by
  induction bs with
  | nil => exact ⟨by decide, by decide, by decide⟩
  | cons b rest ih =>
    cases rest with
    | nil =>
      have hb := b.toNat_lt
      have hcapacity : (capacity [b].length : Int) = 256 := rfl
      have hvalue : value [b] = b.toNat := by simp [value]
      simp only [decode, signed]
      refine ⟨?_, ?_, ?_⟩
      · rw [hcapacity]
        split <;> omega
      · rw [hcapacity]
        split <;> omega
      · rw [hcapacity, hvalue]
        split <;> omega
    | cons c rest =>
      rw [decode_cons (List.cons_ne_nil c rest)]
      exact ih.cons (List.cons_ne_nil c rest) b

/-- A row represents one integer only. -/
theorem Represents.eq_decode (h : Represents bs n) : n = decode bs := by
  obtain ⟨lower, upper, residue⟩ := h
  obtain ⟨lower', upper', residue'⟩ := represents_decode bs
  have hdvd : (capacity bs.length : Int) ∣ n - decode bs :=
    Int.ModEq.dvd (residue'.trans residue.symm)
  have hnear : |n - decode bs| < capacity bs.length := by
    rw [abs_lt]
    omega
  have hzero := Int.eq_zero_of_abs_lt_dvd hdvd hnear
  omega

/-- Rows of one length that represent one integer are the same. -/
theorem Represents.eq_of_length_eq (hb : Represents bs n) (hc : Represents cs n)
    (hlength : bs.length = cs.length) : bs = cs := by
  have hvalue : value bs = value cs := by
    have hbs := hb.residue
    rw [hlength, hc.residue] at hbs
    omega
  rw [← LittleEndian.bytes_value bs, hlength, hvalue, LittleEndian.bytes_value cs]

/-! ## Section 2: Writing -/

theorem represents_encode (n : Int) : Represents (encode n) n := by
  have hdecode := represents_decode (encode n)
  rwa [decode_encode] at hdecode

/-- The induction takes the lowest byte off the row and off the integer. -/
theorem length_encode_le (hne : bs ≠ []) (h : Represents bs n) :
    (encode n).length ≤ bs.length := by
  induction bs generalizing n with
  | nil => exact absurd rfl hne
  | cons b rest ih =>
    rw [encode]
    by_cases hsmall : -128 ≤ n ∧ n < 128
    · rw [if_pos hsmall]
      simp
    · rw [if_neg hsmall]
      have hrest : rest ≠ [] := by
        -- a single byte does not reach so far
        rintro rfl
        have hcapacity : (capacity [b].length : Int) = 256 := rfl
        obtain ⟨lower, upper, -⟩ := h
        rw [hcapacity] at lower upper
        omega
      have hb := b.toNat_lt
      have hn := h.eq_decode
      rw [decode_cons hrest] at hn
      have hdiv : n / 256 = decode rest := by omega
      have hshorter := ih hrest (represents_decode rest)
      rw [hdiv]
      simp only [List.length_cons]
      omega

/-- The shortest row is the written one. -/
theorem shortest_iff : Shortest bs n ↔ bs = encode n := by
  constructor
  · rintro ⟨hne, hbs, hleast⟩
    have hle := length_encode_le hne hbs
    have hge := hleast (encode n) (encode_ne_nil n) (represents_encode n)
    exact hbs.eq_of_length_eq (represents_encode n) (by omega)
  · rintro rfl
    exact ⟨encode_ne_nil n, represents_encode n, fun cs hne hcs => length_encode_le hne hcs⟩

end ContractVM.TwosComplement
