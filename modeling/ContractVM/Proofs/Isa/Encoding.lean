import ContractVM.Isa.Instr
import ContractVM.Proofs.Result

/-! # Encoded instructions

    The length of an encoded instruction, the length prefixes inside it, and the place of
    its jump target.  No address changes the length: each takes four bytes, so an
    instruction is as long before its labels are resolved as afterwards. -/

namespace ContractVM

/-! ## Section 1: Lengths that fit their prefix -/

/-- The number of bytes that a literal puts behind a length prefix. -/
def Literal.payloadSize : Literal → Nat
  | .number n => (TwosComplement.encode n).length
  | .string s => s.utf8ByteSize
  | .bytes bs => bs.size
  | .none | .bool _ | .timestamp _ | .enum _ => 0

/-- The number of bytes that a target puts behind a length prefix. -/
def Target.nameSize : Target → Nat
  | .register _ => 0
  | .named name => name.utf8ByteSize

/-- Does a length prefix of eight bytes hold the length of the operand?  Only literals
    and names have such a prefix. -/
def OperandKind.Fits {A : Type} : (kind : OperandKind) → kind.Carrier A → Prop
  | .literal, l => l.payloadSize < UInt64.size
  | .target, t => t.nameSize < UInt64.size
  | .register, _ | .address, _ | .type, _ => True

/-- Do all operands fit their length prefixes? -/
def Operands.Fits {A : Type} : (kinds : List OperandKind) → Operands A kinds → Prop
  | [], () => True
  | kind :: kinds, (a, rest) => kind.Fits a ∧ Operands.Fits kinds rest

/-- Do the operands of the instruction fit their length prefixes? -/
def Instr.Fits {A : Type} (i : Instr A) : Prop :=
  Operands.Fits i.op.shape i.args

/-! ## Section 2: Written lengths

    Addresses are taken to be written in four bytes, whatever they are. -/

variable {A B ε : Type}

theorem length_u32 (n : UInt32) : (Codec.u32.encode n).length = 4 :=
  LittleEndian.length_bytes 4 n.toNat

/-- The written length of operands does not depend on how addresses are written. -/
theorem Operands.length_encode {write : A → List UInt8} (hwrite : ∀ a, (write a).length = 4)
    (kinds : List OperandKind) (args : Operands A kinds) :
    (Operands.encode write kinds args).length =
      (Operands.encode (fun _ => List.replicate 4 0) kinds args).length := by
  induction kinds with
  | nil => rfl
  | cons kind kinds ih =>
    obtain ⟨a, rest⟩ := args
    simp only [Operands.encode, List.length_append, ih rest]
    congr 1
    cases kind with
    | address => simp only [OperandKind.encode, hwrite, List.length_replicate]
    | register => rfl
    | literal => rfl
    | type => rfl
    | target => rfl

/-- Operands are as long after their addresses were replaced. -/
theorem Operands.length_mapAddress {f : A → Except ε B} (kinds : List OperandKind)
    {args : Operands A kinds} {args' : Operands B kinds}
    (h : Operands.mapAddress f kinds args = .ok args') :
    (Operands.encode (fun _ => List.replicate 4 0) kinds args').length =
      (Operands.encode (fun _ => List.replicate 4 0) kinds args).length := by
  induction kinds with
  | nil => rfl
  | cons kind kinds ih =>
    obtain ⟨a, rest⟩ := args
    obtain ⟨b, rest'⟩ := args'
    simp only [Operands.mapAddress, Except.bind_eq_ok] at h
    obtain ⟨b₁, hb, rest₁, hrest, heq⟩ := h
    cases heq
    simp only [Operands.encode, List.length_append, ih hrest]
    congr 1
    -- only addresses are replaced, and they are written in the same number of bytes
    cases kind with
    | address => simp only [OperandKind.encode]
    | register => cases hb; rfl
    | literal => cases hb; rfl
    | type => cases hb; rfl
    | target => cases hb; rfl

theorem Instr.length_encode (i : Instr UInt32) : i.encode.length = i.encodedLength := by
  show (Operands.encode Codec.u32.encode i.op.shape i.args).length + 1 = _
  rw [Operands.length_encode length_u32]
  rfl

/-- An instruction is as long once its labels are resolved. -/
theorem Instr.length_mapAddress {f : A → Except ε B} {i : Instr A} {j : Instr B}
    (h : i.mapAddress f = .ok j) : j.encodedLength = i.encodedLength := by
  simp only [Instr.mapAddress, Except.bind_eq_ok] at h
  obtain ⟨args, hargs, heq⟩ := h
  cases heq
  show (Operands.encode _ i.op.shape args).length + 1 = _
  rw [Operands.length_mapAddress i.op.shape hargs]
  rfl

/-- The length of the code that instructions are placed as. -/
def placedLength (is : List (Instr UInt32)) : Nat :=
  (is.flatMap Instr.encode).length

/-- Every instruction takes at least the byte of its opcode. -/
theorem Instr.encodedLength_pos (i : Instr A) : 0 < i.encodedLength := by
  show 0 < (Operands.encode _ i.op.shape i.args).length + 1
  omega

/-- In front of its literal, a `LOAD` has its opcode and its register. -/
theorem Instr.encodedLength_load (A : Type) (r : UInt8) (l : Literal) :
    (⟨.load, (r, l, ())⟩ : Instr A).encodedLength = l.encode.length + 2 := by
  show (l.encode ++ []).length + 1 + 1 = l.encode.length + 2
  rw [List.append_nil]

/-! ## Section 3: Short instructions fit their prefixes -/

theorem encode_u8 (b : UInt8) : Codec.u8.encode b = [b] := by
  show [UInt8.ofNat b.toNat] = [b]
  rw [UInt8.ofNat_toNat]

theorem flatMap_encode_u8 (bs : List UInt8) : bs.flatMap Codec.u8.encode = bs := by
  induction bs with
  | nil => rfl
  | cons b bs ih =>
    rw [List.flatMap_cons, encode_u8, ih]
    rfl

/-- The written form of a row of bytes is its length and the bytes themselves. -/
theorem encode_bytes (bs : Array UInt8) :
    Codec.bytes.encode bs = Codec.length.encode bs.toList.length ++ bs.toList := by
  show Codec.length.encode bs.toList.length ++ bs.toList.flatMap Codec.u8.encode = _
  rw [flatMap_encode_u8]

theorem size_le_length_encode_bytes (bs : Array UInt8) :
    bs.size ≤ (Codec.bytes.encode bs).length := by
  have hlen : bs.toList.length = bs.size := Array.length_toList
  rw [encode_bytes, List.length_append]
  omega

theorem size_le_length_encode_string (s : String) :
    s.utf8ByteSize ≤ (Codec.string.encode s).length := by
  have hdata : s.toUTF8.data.toList.length = s.utf8ByteSize := by
    rw [Array.length_toList]; rfl
  show s.utf8ByteSize ≤ (Codec.length.encode _ ++ s.toUTF8.data.toList).length
  rw [List.length_append, hdata]
  omega

theorem Literal.payloadSize_le (l : Literal) : l.payloadSize ≤ l.encode.length := by
  unfold Literal.encode
  rw [List.length_cons]
  cases l with
  | number n =>
    have h := size_le_length_encode_bytes (TwosComplement.encode n).toArray
    rw [List.size_toArray] at h
    exact Nat.le_succ_of_le h
  | string s => exact Nat.le_succ_of_le (size_le_length_encode_string s)
  | bytes bs => exact Nat.le_succ_of_le (size_le_length_encode_bytes bs)
  | none => exact Nat.zero_le _
  | bool b => exact Nat.zero_le _
  | timestamp t => exact Nat.zero_le _
  | enum e => exact Nat.zero_le _

theorem Target.nameSize_le (t : Target) : t.nameSize ≤ t.encode.length := by
  cases t with
  | register index => exact Nat.zero_le _
  | named name => exact Nat.le_succ_of_le (size_le_length_encode_string name)

/-- Operands that are written in fewer bytes than a prefix can count fit their
    prefixes. -/
theorem Operands.fits_of_length (write : A → List UInt8) (kinds : List OperandKind)
    (args : Operands A kinds) (h : (Operands.encode write kinds args).length < UInt64.size) :
    Operands.Fits kinds args := by
  induction kinds with
  | nil => trivial
  | cons kind kinds ih =>
    obtain ⟨a, rest⟩ := args
    simp only [Operands.encode, List.length_append] at h
    refine ⟨?_, ih rest (by omega)⟩
    cases kind with
    | literal =>
      have hle := Literal.payloadSize_le a
      simp only [OperandKind.encode] at h
      show Literal.payloadSize a < _
      omega
    | target =>
      have hle := Target.nameSize_le a
      simp only [OperandKind.encode] at h
      show Target.nameSize a < _
      omega
    | register => trivial
    | address => trivial
    | type => trivial

theorem Instr.fits_of_length (i : Instr UInt32) (h : i.encode.length < UInt64.size) : i.Fits := by
  apply Operands.fits_of_length Codec.u32.encode
  have hlen : i.encode.length = (Operands.encode Codec.u32.encode i.op.shape i.args).length + 1 :=
    rfl
  omega

/-! ## Section 4: Jump targets -/

/-- The address at which an instruction jumps or calls. -/
def Instr.target? : Instr A → Option A
  | ⟨.jmp, (a, ())⟩ => some a
  | ⟨.call, (a, ())⟩ => some a
  | ⟨.jmpIf, (_, a, ())⟩ => some a
  | ⟨.jmpNot, (_, a, ())⟩ => some a
  | _ => none

/-- The operand of a jump or a call is replaced. -/
theorem Operands.mapAddress_target {f : A → Except ε B} {a : A} {args : Operands B [.address]} :
    Operands.mapAddress f [.address] (a, ()) = .ok args ↔ ∃ b, f a = .ok b ∧ args = (b, ()) := by
  constructor
  · intro h
    obtain ⟨b, hb, hrest⟩ := Except.bind_eq_ok.mp h
    cases hrest
    exact ⟨b, hb, rfl⟩
  · rintro ⟨b, hb, rfl⟩
    exact Except.bind_eq_ok.mpr ⟨b, hb, rfl⟩

/-- A branch keeps its condition, and its target is replaced. -/
theorem Operands.mapAddress_branch {f : A → Except ε B} {cond : UInt8} {a : A}
    {args : Operands B [.register, .address]} :
    Operands.mapAddress f [.register, .address] (cond, a, ()) = .ok args ↔
      ∃ b, f a = .ok b ∧ args = (cond, b, ()) := by
  constructor
  · intro h
    obtain ⟨_, hcond, hrest⟩ := Except.bind_eq_ok.mp h
    cases hcond
    obtain ⟨_, htarget, heq⟩ := Except.bind_eq_ok.mp hrest
    obtain ⟨b, hb, rfl⟩ := Operands.mapAddress_target.mp htarget
    cases heq
    exact ⟨b, hb, rfl⟩
  · rintro ⟨b, hb, rfl⟩
    have htarget := Operands.mapAddress_target.mpr ⟨b, hb, rfl⟩
    exact Except.bind_eq_ok.mpr ⟨cond, rfl, Except.bind_eq_ok.mpr ⟨_, htarget, rfl⟩⟩

/-- The target of an instruction is replaced like any address. -/
theorem Instr.target?_mapAddress {f : A → Except ε B} {i : Instr A} {j : Instr B} {a : A}
    (h : i.mapAddress f = .ok j) (ha : i.target? = some a) :
    ∃ b, f a = .ok b ∧ j.target? = some b := by
  obtain ⟨op, args⟩ := i
  obtain ⟨args', hargs, heq⟩ := Except.bind_eq_ok.mp h
  cases heq
  cases op with
  | jmp | call =>
    obtain ⟨target, ⟨⟩⟩ := args
    cases ha
    obtain ⟨b, hb, rfl⟩ := Operands.mapAddress_target.mp hargs
    exact ⟨b, hb, rfl⟩
  | jmpIf | jmpNot =>
    obtain ⟨cond, target, ⟨⟩⟩ := args
    cases ha
    obtain ⟨b, hb, rfl⟩ := Operands.mapAddress_branch.mp hargs
    exact ⟨b, hb, rfl⟩
  | _ => cases ha

/-- A target comes from one that was replaced. -/
theorem Instr.target?_of_mapAddress {f : A → Except ε B} {i : Instr A} {j : Instr B} {b : B}
    (h : i.mapAddress f = .ok j) (hb : j.target? = some b) :
    ∃ a, i.target? = some a ∧ f a = .ok b := by
  obtain ⟨op, args⟩ := i
  obtain ⟨args', hargs, heq⟩ := Except.bind_eq_ok.mp h
  cases heq
  cases op with
  | jmp | call =>
    obtain ⟨target, ⟨⟩⟩ := args
    obtain ⟨_, ha, rfl⟩ := Operands.mapAddress_target.mp hargs
    cases hb
    exact ⟨target, rfl, ha⟩
  | jmpIf | jmpNot =>
    obtain ⟨cond, target, ⟨⟩⟩ := args
    obtain ⟨_, ha, rfl⟩ := Operands.mapAddress_branch.mp hargs
    cases hb
    exact ⟨target, rfl, ha⟩
  | _ => cases hb

/-- The target is the last thing that is written of an instruction. -/
theorem Instr.encode_of_target? {i : Instr UInt32} {target : UInt32}
    (h : i.target? = some target) : ∃ front, i.encode = front ++ Codec.u32.encode target := by
  unfold Instr.target? at h
  split at h <;> cases h
  · exact ⟨[Opcode.jmp.byte], by
      simp [Instr.encode, Instr.encodeWith, Operands.encode, OperandKind.encode]⟩
  · exact ⟨[Opcode.call.byte], by
      simp [Instr.encode, Instr.encodeWith, Operands.encode, OperandKind.encode]⟩
  · next cond =>
    exact ⟨[Opcode.jmpIf.byte, cond], by
      simp [Instr.encode, Instr.encodeWith, Operands.encode, OperandKind.encode]⟩
  · next cond =>
    exact ⟨[Opcode.jmpNot.byte, cond], by
      simp [Instr.encode, Instr.encodeWith, Operands.encode, OperandKind.encode]⟩

end ContractVM
