import ContractVM.Proofs.Assembly.Printed
import ContractVM.Proofs.Codec.Exact
import ContractVM.Proofs.Heap.Closed
import ContractVM.Proofs.Number.Shortest

/-! # Conversions there and back

    A value that is converted to another type can be converted back, where the table of conversions
    has a way back:

    * **Types**: a conversion yields a value of the type that was asked for, and such a value
      converts to itself.
    * **Numbers** come back from texts and bytes, whatever their size and sign.  Bytes come back
      from numbers only if they are a shortest row.
    * **Words** of 32 bits are the numbers that convert to timestamps and enums.
    * **Texts** come back from bytes, and bytes from texts if they are UTF-8. -/

namespace ContractVM

namespace Value

/-! ## Section 1: Converting -/

/-- Does the value convert to this value of the type, in each heap and without a change of it? -/
def ConvertsTo (v : Value) (t : ValueType) (w : Value) : Prop :=
  ∀ (Ω : Type) (h : Heap Ω) (instruction : String), h.cast v t instruction = .ok (w, h)

/-- Does the value convert to the type, and what it converts to back to the value? -/
def ReturnsFrom (v : Value) (t : ValueType) : Prop :=
  ∃ w, v.ConvertsTo t w ∧ w.ConvertsTo v.type v

/-- Is the conversion refused in each heap, since the value is out of range? -/
def RefusedAs (v : Value) (t : ValueType) (problem : RangeProblem) : Prop :=
  ∀ (Ω : Type) (h : Heap Ω) (instruction : String),
    h.cast v t instruction = .error (.outOfRange instruction problem)

variable {v w : Value} {t : ValueType}

/-- Only a none that becomes a struct changes the heap. -/
theorem heapCast_eq {Ω : Type} (h : Heap Ω) (instruction : String)
    (hplain : v ≠ .none ∨ t ≠ .struct) :
    h.cast v t instruction = (v.cast t instruction).map fun w => (w, h) := by
  unfold Heap.cast
  rw [if_neg fun hboth => hplain.elim (absurd hboth.1) (absurd hboth.2)]
  cases v.cast t instruction with
  | error f => rfl
  | ok w => rfl

theorem convertsTo_iff (hplain : v ≠ .none ∨ t ≠ .struct) :
    v.ConvertsTo t w ↔ ∀ instruction, v.cast t instruction = .ok w := by
  constructor
  · intro hconverts instruction
    have hcast := hconverts Empty .empty instruction
    rw [heapCast_eq _ _ hplain] at hcast
    obtain ⟨u, hu, heq⟩ := Except.map_eq_ok.mp hcast
    cases heq
    exact hu
  · intro hcast Ω h instruction
    rw [heapCast_eq _ _ hplain, hcast instruction]
    rfl

/-- A value that becomes no struct returns if its type has a way back. -/
theorem ReturnsFrom.of_cast (hthere : ∀ instruction, v.cast t instruction = .ok w)
    (hback : ∀ instruction, w.cast v.type instruction = .ok v) (ht : t ≠ .struct)
    (hv : v.type ≠ .struct) : v.ReturnsFrom t := by
  exact ⟨w, (convertsTo_iff (.inr ht)).mpr hthere, (convertsTo_iff (.inr hv)).mpr hback⟩

theorem not_returnsFrom_of_refusedAs {problem : RangeProblem} (hrefused : v.RefusedAs t problem) :
    ¬v.ReturnsFrom t := by
  rintro ⟨w, hthere, -⟩
  have hok := hthere Empty .empty "CAST"
  rw [hrefused] at hok
  cases hok

theorem refusedAs_of_cast {problem : RangeProblem} (ht : t ≠ .struct)
    (hcast : ∀ instruction, v.cast t instruction = .error (.outOfRange instruction problem)) :
    v.RefusedAs t problem := by
  intro Ω h instruction
  rw [heapCast_eq _ _ (.inr ht), hcast]
  rfl

/-! ## Section 2: Types -/

/-- A value of the type is what it converts to. -/
theorem cast_type (v : Value) (instruction : String) : v.cast v.type instruction = .ok v := by
  cases v <;> rfl

theorem convertsTo_self (v : Value) : v.ConvertsTo v.type v := by
  refine (convertsTo_iff ?_).mpr v.cast_type
  cases v with
  | none => exact .inr ValueType.noConfusion
  | _ => exact .inl Value.noConfusion

/-- What a conversion yields has the type, in every heap. -/
theorem type_of_heapCast {Ω : Type} {h h' : Heap Ω} {instruction : String}
    (hcast : h.cast v t instruction = .ok (w, h')) : w.type = t := by
  by_cases hnone : v = .none ∧ t = .struct
  · unfold Heap.cast at hcast
    rw [if_pos hnone] at hcast
    cases hcast
    exact hnone.2.symm
  · rw [heapCast_eq _ _ (not_and_or.mp hnone)] at hcast
    obtain ⟨u, hu, heq⟩ := Except.map_eq_ok.mp hcast
    cases heq
    exact v.yields_cast instruction t w hu

/-! ## Section 3: Words -/

/-- The numbers of words are those of 32 bits. -/
theorem word32?_toNat (word : UInt32) : word32? word.toNat = some word := by
  have hlt := word.toNat_lt
  have hfits : (0 : Int) ≤ word.toNat ∧ (word.toNat : Int) < UInt32.size := by
    simp only [UInt32.size]
    omega
  unfold word32?
  rw [if_pos hfits]
  simp

theorem exists_word {n : Int} (hn : 0 ≤ n ∧ n < 2 ^ 32) :
    ∃ word : UInt32, n = word.toNat ∧ word32? n = some word := by
  obtain ⟨k, rfl⟩ := Int.eq_ofNat_of_zero_le hn.1
  have hk : k < UInt32.size := by
    simp only [UInt32.size]
    omega
  have hnat : (UInt32.ofNat k).toNat = k := UInt32.toNat_ofNat_of_lt hk
  refine ⟨UInt32.ofNat k, by rw [hnat], ?_⟩
  have hword := word32?_toNat (UInt32.ofNat k)
  rwa [hnat] at hword

theorem word32?_eq_none {n : Int} (hn : ¬(0 ≤ n ∧ n < 2 ^ 32)) : word32? n = Option.none := by
  unfold word32?
  rw [if_neg]
  simp only [UInt32.size]
  omega

/-- Are the values of the type words of 32 bits, which convert to their numbers and back? -/
structure HoldsWords (t : ValueType) (word : UInt32 → Value) (problem : Int → RangeProblem) :
    Prop where
  ne_struct : t ≠ .struct
  type_eq : ∀ k, (word k).type = t
  toNumber : ∀ k instruction, (word k).cast .number instruction = .ok (.number k.toNat)
  ofNumber : ∀ n instruction, (number n).cast t instruction = match word32? n with
    | .some k => .ok (word k)
    | .none => .error (.outOfRange instruction (problem n))

theorem holdsWords_timestamp : HoldsWords .timestamp timestamp .timestamp :=
  ⟨ValueType.noConfusion, fun _ => rfl, fun _ _ => rfl, fun _ _ => rfl⟩

theorem holdsWords_enum : HoldsWords .enum enum .enum :=
  ⟨ValueType.noConfusion, fun _ => rfl, fun _ _ => rfl, fun _ _ => rfl⟩

section Words

variable {word : UInt32 → Value} {problem : Int → RangeProblem} (hwords : HoldsWords t word problem)

include hwords

theorem HoldsWords.word_returns (k : UInt32) : (word k).ReturnsFrom .number := by
  refine .of_cast (hwords.toNumber k) ?_ ValueType.noConfusion ?_
  · intro instruction
    rw [hwords.type_eq, hwords.ofNumber, word32?_toNat]
  · rw [hwords.type_eq]
    exact hwords.ne_struct

theorem HoldsWords.refusedAs {n : Int} (hn : ¬(0 ≤ n ∧ n < 2 ^ 32)) :
    (number n).RefusedAs t (problem n) := by
  refine refusedAs_of_cast hwords.ne_struct fun instruction => ?_
  rw [hwords.ofNumber, word32?_eq_none hn]

/-- It is the numbers of 32 bits that convert to the type, and they come back. -/
theorem HoldsWords.number_returns_iff {n : Int} :
    (number n).ReturnsFrom t ↔ 0 ≤ n ∧ n < 2 ^ 32 := by
  constructor
  · intro hreturns
    by_contra hn
    exact not_returnsFrom_of_refusedAs (hwords.refusedAs hn) hreturns
  · intro hn
    obtain ⟨k, hnat, hk⟩ := exists_word hn
    refine .of_cast (w := word k) ?_ ?_ hwords.ne_struct ValueType.noConfusion
    · intro instruction
      rw [hwords.ofNumber, hk]
    · intro instruction
      rw [hnat]
      exact hwords.toNumber k instruction

end Words

/-! ## Section 4: Numbers and bytes -/

theorem number_returns_from_string (n : Int) : (number n).ReturnsFrom .string := by
  refine .of_cast (w := .string (toString n)) (fun _ => rfl) ?_ ValueType.noConfusion
    ValueType.noConfusion
  intro instruction
  show (string (toString n)).toNumber instruction = _
  simp only [toNumber, Assembly.parseInteger?_toString]

theorem number_to_bytes (n : Int) :
    (number n).ConvertsTo .bytes (.bytes (TwosComplement.encode n).toArray) :=
  (convertsTo_iff (.inl Value.noConfusion)).mpr fun _ => rfl

theorem bytes_to_number (bs : Array UInt8) :
    (bytes bs).ConvertsTo .number (.number (TwosComplement.decode bs.toList)) :=
  (convertsTo_iff (.inl Value.noConfusion)).mpr fun _ => rfl

theorem number_returns_from_bytes (n : Int) : (number n).ReturnsFrom .bytes := by
  refine ⟨_, number_to_bytes n, ?_⟩
  have hback := bytes_to_number (TwosComplement.encode n).toArray
  rwa [List.toList_toArray, TwosComplement.decode_encode] at hback

/-- Bytes that are converted to a number and back are the same if no shorter row represents that
    number. -/
theorem bytes_through_number (bs : Array UInt8) :
    ∃ n cs, (bytes bs).ConvertsTo .number (.number n) ∧
      (number n).ConvertsTo .bytes (.bytes cs) ∧
      (cs = bs ↔ TwosComplement.Shortest bs.toList n) := by
  refine ⟨_, _, bytes_to_number bs, number_to_bytes _, ?_⟩
  rw [TwosComplement.shortest_iff]
  constructor
  · intro heq
    rw [← heq, List.toList_toArray, TwosComplement.decode_encode]
  · intro heq
    rw [← heq, Array.toArray_toList]

/-! ## Section 5: Texts and bytes -/

theorem string_returns_from_bytes (s : String) : (string s).ReturnsFrom .bytes := by
  refine .of_cast (w := .bytes s.toUTF8.data) (fun _ => rfl) ?_ ValueType.noConfusion
    ValueType.noConfusion
  intro instruction
  have htext : String.fromUTF8? ⟨s.toUTF8.data⟩ = some s :=
    Codec.fromUTF8?_eq_some_iff.mpr rfl
  show (bytes s.toUTF8.data).toText instruction = _
  simp only [toText, htext]

/-- UTF-8 is what texts are made of. -/
theorem bytes_return_from_string {bs : Array UInt8} (hvalid : ByteArray.IsValidUTF8 ⟨bs⟩) :
    (bytes bs).ReturnsFrom .string := by
  have htext : String.fromUTF8? ⟨bs⟩ = some (String.fromUTF8 ⟨bs⟩ hvalid) := by
    simp only [String.fromUTF8?, hvalid, dite_true]
  have hbytes := Codec.fromUTF8?_eq_some_iff.mp htext
  refine .of_cast (w := .string (String.fromUTF8 ⟨bs⟩ hvalid)) ?_ ?_ ValueType.noConfusion
    ValueType.noConfusion
  · intro instruction
    show (bytes bs).toText instruction = _
    simp only [toText, htext]
  · intro instruction
    show Except.ok (Value.bytes (String.fromUTF8 ⟨bs⟩ hvalid).toUTF8.data) = _
    rw [hbytes]

theorem bytes_refused_as_string {bs : Array UInt8} (hinvalid : ¬ByteArray.IsValidUTF8 ⟨bs⟩) :
    (bytes bs).RefusedAs .string .invalidUtf8 := by
  refine refusedAs_of_cast ValueType.noConfusion fun instruction => ?_
  show (bytes bs).toText instruction = _
  simp only [toText, String.fromUTF8?, hinvalid, dite_false]

theorem bytes_return_from_string_iff (bs : Array UInt8) :
    (bytes bs).ReturnsFrom .string ↔ ByteArray.IsValidUTF8 ⟨bs⟩ := by
  refine ⟨fun hreturns => ?_, bytes_return_from_string⟩
  by_contra hinvalid
  exact not_returnsFrom_of_refusedAs (bytes_refused_as_string hinvalid) hreturns

/-! ## Section 6: Booleans -/

theorem bool_returns (b : Bool) : (bool b).ReturnsFrom .string ∧ (bool b).ReturnsFrom .number := by
  constructor
  · apply ReturnsFrom.of_cast (fun _ => rfl) ?_ ValueType.noConfusion ValueType.noConfusion
    intro instruction
    cases b with
    | false => rfl
    | true => rfl
  · apply ReturnsFrom.of_cast (fun _ => rfl) ?_ ValueType.noConfusion ValueType.noConfusion
    intro instruction
    cases b with
    | false => rfl
    | true => rfl

end Value

open Value in
/-- **Conversions lose nothing where there is a way back.**  A value that a conversion yields has
    the type that was asked for, and converts to itself.

    Numbers of any size and sign come back from texts and from bytes, texts come back from bytes,
    Booleans from texts and from numbers, and timestamps and enums from numbers.  A number converts
    to a timestamp or an enum, and comes back, if it is one of 32 bits, and is refused otherwise.

    The bytes of a number are the shortest non-empty row that represents it in two's complement,
    so bytes come back from the number that they convert to just if they are such a row.  Bytes
    convert to a text, and come back, if they are UTF-8, and are refused otherwise. -/
theorem conversions_come_back :
    (∀ {Ω : Type} (h h' : Heap Ω) (v w : Value) (t : ValueType) (instruction : String),
      h.cast v t instruction = .ok (w, h') →
        w.type = t ∧ ∀ again, h'.cast w t again = .ok (w, h')) ∧
    (∀ n, (Value.number n).ReturnsFrom .string ∧ (Value.number n).ReturnsFrom .bytes) ∧
    (∀ s, (Value.string s).ReturnsFrom .bytes) ∧
    (∀ b, (Value.bool b).ReturnsFrom .string ∧ (Value.bool b).ReturnsFrom .number) ∧
    (∀ k, (Value.timestamp k).ReturnsFrom .number ∧ (Value.enum k).ReturnsFrom .number) ∧
    (∀ n, ((Value.number n).ReturnsFrom .timestamp ↔ 0 ≤ n ∧ n < 2 ^ 32) ∧
      ((Value.number n).ReturnsFrom .enum ↔ 0 ≤ n ∧ n < 2 ^ 32) ∧
      (¬(0 ≤ n ∧ n < 2 ^ 32) → (Value.number n).RefusedAs .timestamp (.timestamp n) ∧
        (Value.number n).RefusedAs .enum (.enum n))) ∧
    (∀ n, ∃ bs, (Value.number n).ConvertsTo .bytes (.bytes bs) ∧
      TwosComplement.Shortest bs.toList n) ∧
    (∀ bs, ∃ n cs, (Value.bytes bs).ConvertsTo .number (.number n) ∧
      (Value.number n).ConvertsTo .bytes (.bytes cs) ∧
      (cs = bs ↔ TwosComplement.Shortest bs.toList n)) ∧
    ∀ bs, ((Value.bytes bs).ReturnsFrom .string ↔ ByteArray.IsValidUTF8 ⟨bs⟩) ∧
      (¬ByteArray.IsValidUTF8 ⟨bs⟩ → (Value.bytes bs).RefusedAs .string .invalidUtf8) := by
  refine ⟨?again, fun n => ⟨number_returns_from_string n, number_returns_from_bytes n⟩,
    string_returns_from_bytes, bool_returns, ?words, ?range, ?shortest, bytes_through_number,
    fun bs => ⟨bytes_return_from_string_iff bs, bytes_refused_as_string⟩⟩
  case again =>
    intro Ω h h' v w t instruction hcast
    have htype := type_of_heapCast hcast
    refine ⟨htype, fun again => ?_⟩
    rw [← htype]
    exact w.convertsTo_self Ω h' again
  case words =>
    exact fun k => ⟨holdsWords_timestamp.word_returns k, holdsWords_enum.word_returns k⟩
  case range =>
    intro n
    exact ⟨holdsWords_timestamp.number_returns_iff, holdsWords_enum.number_returns_iff,
      fun hn => ⟨holdsWords_timestamp.refusedAs hn, holdsWords_enum.refusedAs hn⟩⟩
  case shortest =>
    intro n
    refine ⟨(TwosComplement.encode n).toArray, number_to_bytes n, ?_⟩
    rw [List.toList_toArray]
    exact TwosComplement.shortest_iff.mpr rfl

/-- A none becomes one struct, however often it is converted, and the greatest number of 32 bits
    comes back, but not the one behind it. -/
theorem new_struct_and_greatest_word_come_back :
    let h : Heap Empty := (Heap.empty : Heap Empty).newStruct.2
    (Heap.empty : Heap Empty).cast .none .struct "CAST" = .ok (.struct ⟨0⟩, h) ∧
      h.cast (.struct ⟨0⟩) .struct "CAST" = .ok (.struct ⟨0⟩, h) ∧
      (Value.number (2 ^ 32 - 1)).ReturnsFrom .timestamp ∧
      (Value.number (2 ^ 32)).RefusedAs .timestamp (.timestamp (2 ^ 32)) := by
  intro h
  have hcast : (Heap.empty : Heap Empty).cast .none .struct "CAST" = .ok (.struct ⟨0⟩, h) := rfl
  obtain ⟨hagain, -, -, -, -, hrange, -⟩ := conversions_come_back
  obtain ⟨hlast, -⟩ := hrange (2 ^ 32 - 1)
  obtain ⟨-, -, hrefused⟩ := hrange (2 ^ 32)
  exact ⟨hcast, (hagain _ _ _ _ _ _ hcast).2 "CAST", hlast.mpr (by omega),
    (hrefused (by omega)).1⟩

end ContractVM
