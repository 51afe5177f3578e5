import ContractVM.Isa.Fetch

/-! # What readers look at

    Code names its own lengths, and nothing says that they are right.  Yet a reader looks
    only at a window of the code, from the offset at which it starts to one that still
    lies in the code:

    * **Reads** depend on the bytes of the window, and on no others.
    * **A result** uses up the whole window.
    * **A read that does not fit** fails at the end of the window, before it is made.

    Readers are made of `byte` and `chunk`, and windows of consecutive reads join.  What is
    read takes at least its opcode, and exactly its encoding where this has a fixed width. -/

namespace ContractVM.Reader

variable {α β : Type}

/-! ## Section 1: Windows -/

/-- The reader looks at the code from `offset` to `stop` only. -/
structure Window (r : Reader α) (code : Array UInt8) (offset stop : Nat) : Prop where
  le : offset ≤ stop
  inside : stop ≤ code.size
  /-- Code of this size that differs elsewhere is read alike. -/
  reads : ∀ code' : Array UInt8, code'.size = code.size →
    (∀ k, offset ≤ k → k < stop → code'[k]? = code[k]?) → r code' offset = r code offset
  used : ∀ a next, r code offset = .ok (a, next) → next = stop
  ended : ∀ start requested available,
    r code offset = .error (.codeEnded start requested available) →
    start = stop ∧ code.size < stop + requested ∧ available = code.size - stop

/-- The reader never looks outside of the code. -/
def Guarded (r : Reader α) : Prop :=
  ∀ code offset, offset ≤ code.size → ∃ stop, Window r code offset stop

theorem guarded_pure (a : α) : Guarded (pure a) := by
  intro code offset hle
  refine ⟨offset, Nat.le_refl offset, hle, fun _ _ _ => rfl, ?_, ?_⟩
  · intro b next h
    cases h
    rfl
  · intro start requested available h
    cases h

theorem guarded_position : Guarded position := by
  intro code offset hle
  refine ⟨offset, Nat.le_refl offset, hle, fun _ _ _ => rfl, ?_, ?_⟩
  · intro start next h
    cases h
    rfl
  · intro start requested available h
    cases h

/-- A reader that gives up for another reason than the end of the code. -/
theorem guarded_fail {e : CodeFault}
    (he : ∀ start requested available, e ≠ .codeEnded start requested available) :
    Guarded (fail e : Reader α) := by
  intro code offset hle
  refine ⟨offset, Nat.le_refl offset, hle, fun _ _ _ => rfl, ?_, ?_⟩
  · intro a next h
    cases h
  · intro start requested available h
    cases h
    exact absurd rfl (he start requested available)

/-- Windows of consecutive reads join. -/
theorem Guarded.bind {r : Reader α} {f : α → Reader β} (hr : Guarded r)
    (hf : ∀ a, Guarded (f a)) : Guarded (r >>= f) := by
  intro code offset hle
  obtain ⟨mid, hfirst⟩ := hr code offset hle
  cases hread : r code offset with
  | error e =>
    -- the second reader is not reached
    have hfails : (r >>= f) code offset = .error e := by
      rw [bind_apply, hread]
    refine ⟨mid, hfirst.le, hfirst.inside, ?_, ?_, ?_⟩
    · intro code' hsize hsame
      rw [bind_apply, hfirst.reads code' hsize hsame, hread, hfails]
    · intro b next h
      rw [hfails] at h
      cases h
    · intro start requested available h
      rw [hfails] at h
      cases h
      exact hfirst.ended start requested available hread
  | ok read =>
    obtain ⟨a, next⟩ := read
    have hnext : next = mid := hfirst.used a next hread
    subst hnext
    obtain ⟨stop, hsecond⟩ := hf a code next hfirst.inside
    have hgoes : (r >>= f) code offset = f a code next := by
      rw [bind_apply, hread]
    refine ⟨stop, Nat.le_trans hfirst.le hsecond.le, hsecond.inside, ?_, ?_, ?_⟩
    · intro code' hsize hsame
      have hsame₁ : ∀ k, offset ≤ k → k < next → code'[k]? = code[k]? :=
        fun k hk hlt => hsame k hk (Nat.lt_of_lt_of_le hlt hsecond.le)
      have hsame₂ : ∀ k, next ≤ k → k < stop → code'[k]? = code[k]? :=
        fun k hk hlt => hsame k (Nat.le_trans hfirst.le hk) hlt
      rw [hgoes, bind_apply, hfirst.reads code' hsize hsame₁, hread]
      exact hsecond.reads code' hsize hsame₂
    · intro b next' h
      rw [hgoes] at h
      exact hsecond.used b next' h
    · intro start requested available h
      rw [hgoes] at h
      exact hsecond.ended start requested available h

/-! ## Section 2: Bytes -/

theorem guarded_chunk (count : Nat) : Guarded (chunk count) := by
  intro code offset hle
  by_cases hfits : offset + count ≤ code.size
  · have hread : chunk count code offset =
        .ok (code.extract offset (offset + count), offset + count) := by
      unfold chunk
      rw [if_pos hfits]
    refine ⟨offset + count, Nat.le_add_right _ _, hfits, ?_, ?_, ?_⟩
    · intro code' hsize hsame
      have hbytes : code'.extract offset (offset + count) =
          code.extract offset (offset + count) := by
        apply Array.ext_getElem?
        intro k
        rw [Array.getElem?_extract, Array.getElem?_extract, hsize]
        split
        · exact hsame (offset + k) (Nat.le_add_right _ _) (by omega)
        · rfl
      rw [hread]
      unfold chunk
      rw [hsize, if_pos hfits, hbytes]
    · intro bs next h
      rw [hread] at h
      cases h
      rfl
    · intro start requested available h
      rw [hread] at h
      cases h
  · have hread : chunk count code offset =
        .error (.codeEnded offset count (code.size - offset)) := by
      unfold chunk
      rw [if_neg hfits]
    refine ⟨offset, Nat.le_refl offset, hle, ?_, ?_, ?_⟩
    · intro code' hsize _
      rw [hread]
      unfold chunk
      rw [hsize, if_neg hfits]
    · intro bs next h
      rw [hread] at h
      cases h
    · intro start requested available h
      rw [hread] at h
      cases h
      exact ⟨rfl, Nat.lt_of_not_le hfits, rfl⟩

theorem guarded_byte : Guarded byte := by
  intro code offset hle
  cases hbyte : code[offset]? with
  | some b =>
    have hlt : offset < code.size := (Array.getElem?_eq_some_iff.mp hbyte).1
    have hread : byte code offset = .ok (b, offset + 1) := by
      unfold byte
      rw [hbyte]
    refine ⟨offset + 1, Nat.le_succ offset, hlt, ?_, ?_, ?_⟩
    · intro code' _ hsame
      rw [hread]
      unfold byte
      rw [hsame offset (Nat.le_refl offset) (Nat.lt_succ_self offset), hbyte]
    · intro b' next h
      rw [hread] at h
      cases h
      rfl
    · intro start requested available h
      rw [hread] at h
      cases h
  | none =>
    have hend : code.size ≤ offset := Array.getElem?_eq_none_iff.mp hbyte
    have hread : byte code offset = .error (.codeEnded offset 1 (code.size - offset)) := by
      unfold byte
      rw [hbyte]
    refine ⟨offset, Nat.le_refl offset, hle, ?_, ?_, ?_⟩
    · intro code' hsize _
      have hbyte' : code'[offset]? = none := Array.getElem?_eq_none_iff.mpr (by omega)
      rw [hread]
      unfold byte
      rw [hbyte', hsize]
    · intro b next h
      rw [hread] at h
      cases h
    · intro start requested available h
      rw [hread] at h
      cases h
      exact ⟨rfl, Nat.lt_succ_of_le hend, rfl⟩

/-! ## Section 3: Instructions -/

theorem guarded_word (width : Nat) : Guarded (word width) :=
  (guarded_chunk width).bind fun _ => guarded_pure _

/-- The length in front of a row of bytes may be any number. -/
theorem guarded_sized : Guarded sized :=
  (guarded_word 8).bind fun count => guarded_chunk count

theorem guarded_text (start : Nat) : Guarded (text start) := by
  apply guarded_sized.bind
  intro bs
  split
  · exact guarded_pure _
  · exact guarded_fail (by simp)

theorem guarded_type : Guarded type := by
  apply guarded_position.bind
  intro start
  apply guarded_byte.bind
  intro tag
  split
  · exact guarded_pure _
  · exact guarded_fail (by simp)

theorem guarded_payload (start : Nat) (t : ValueType) : Guarded (payload start t) := by
  cases t with
  | none => exact guarded_pure _
  | bool =>
    apply guarded_byte.bind
    intro b
    split
    · exact guarded_pure _
    · split
      · exact guarded_pure _
      · exact guarded_fail (by simp)
  | number => exact guarded_sized.bind fun _ => guarded_pure _
  | string => exact (guarded_text start).bind fun _ => guarded_pure _
  | bytes => exact guarded_sized.bind fun _ => guarded_pure _
  | timestamp => exact (guarded_word 4).bind fun _ => guarded_pure _
  | enum => exact (guarded_word 4).bind fun _ => guarded_pure _
  | struct => exact guarded_fail (by simp)
  | object => exact guarded_fail (by simp)

theorem guarded_target : Guarded target := by
  apply guarded_position.bind
  intro start
  apply guarded_byte.bind
  intro tag
  split
  · exact guarded_byte.bind fun _ => guarded_pure _
  · split
    · exact (guarded_text start).bind fun _ => guarded_pure _
    · exact guarded_fail (by simp)

theorem guarded_operand (kind : OperandKind) : Guarded (operand kind) := by
  cases kind with
  | register => exact guarded_byte
  | address => exact (guarded_word 4).bind fun _ => guarded_pure _
  | literal =>
    apply guarded_position.bind
    intro start
    exact guarded_type.bind fun t => guarded_payload start t
  | type => exact guarded_type
  | target => exact guarded_target

theorem guarded_operands (kinds : List OperandKind) : Guarded (operands kinds) := by
  induction kinds with
  | nil => exact guarded_pure ()
  | cons kind kinds ih =>
    apply (guarded_operand kind).bind
    intro a
    exact ih.bind fun _ => guarded_pure _

theorem guarded_opcode : Guarded opcode := by
  apply guarded_position.bind
  intro start
  apply guarded_byte.bind
  intro b
  split
  · exact guarded_pure _
  · exact guarded_fail (by simp)

/-- An instruction is read inside the code, whatever the code is. -/
theorem guarded_instr : Guarded instr := by
  apply guarded_opcode.bind
  intro op
  have hargs : Guarded (arguments op) := by
    rw [arguments_eq]
    exact guarded_operands op.shape
  exact hargs.bind fun _ => guarded_pure _

/-! ## Section 4: How far readers get -/

theorem bind_eq_ok {r : Reader α} {f : α → Reader β} {code : Array UInt8} {offset next : Nat}
    {b : β} : (r >>= f) code offset = .ok (b, next) ↔
      ∃ a mid, r code offset = .ok (a, mid) ∧ f a code mid = .ok (b, next) := by
  rw [bind_apply]
  cases r code offset with
  | error e => simp
  | ok read =>
    constructor
    · intro h
      exact ⟨read.1, read.2, rfl, h⟩
    · rintro ⟨a, mid, hread, h⟩
      cases hread
      exact h

/-- A byte that is read lies inside the code. -/
theorem lt_of_byte {code : Array UInt8} {offset next : Nat} {b : UInt8}
    (h : byte code offset = .ok (b, next)) : next = offset + 1 ∧ offset < code.size := by
  unfold byte at h
  split at h
  · next hbyte =>
    cases h
    exact ⟨rfl, (Array.getElem?_eq_some_iff.mp hbyte).1⟩
  · cases h

theorem next_word {width n : Nat} {code : Array UInt8} {offset next : Nat}
    (h : word width code offset = .ok (n, next)) : next = offset + width := by
  obtain ⟨bs, mid, hchunk, h⟩ := bind_eq_ok.mp h
  cases h
  unfold chunk at hchunk
  split at hchunk
  · cases hchunk
    rfl
  · cases hchunk

/-- An opcode takes one byte, which lies inside the code. -/
theorem lt_of_opcode {code : Array UInt8} {offset next : Nat} {op : Opcode}
    (h : opcode code offset = .ok (op, next)) : next = offset + 1 ∧ offset < code.size := by
  obtain ⟨start, mid, hstart, h⟩ := bind_eq_ok.mp h
  cases hstart
  obtain ⟨b, mid, hbyte, h⟩ := bind_eq_ok.mp h
  cases hop : Opcode.ofByte? b with
  | some found =>
    rw [hop] at h
    cases h
    exact lt_of_byte hbyte
  | none =>
    rw [hop] at h
    cases h

/-- An instruction is an opcode, and right behind it operands of its shape. -/
theorem parts_of_instr {code : Array UInt8} {offset next : Nat} {i : Instr UInt32}
    (h : instr code offset = .ok (i, next)) :
    offset < code.size ∧ operands i.op.shape code (offset + 1) = .ok (i.args, next) := by
  obtain ⟨op, mid, hop, h⟩ := bind_eq_ok.mp h
  obtain ⟨args, mid', hargs, h⟩ := bind_eq_ok.mp h
  cases h
  obtain ⟨rfl, hlt⟩ := lt_of_opcode hop
  rw [arguments_eq] at hargs
  exact ⟨hlt, hargs⟩

/-- Reading an instruction gets on, and does not leave the code. -/
theorem lt_of_instr {code : Array UInt8} {offset next : Nat} {i : Instr UInt32}
    (h : instr code offset = .ok (i, next)) : offset < next ∧ next ≤ code.size := by
  obtain ⟨hlt, hargs⟩ := parts_of_instr h
  obtain ⟨stop, hwindow⟩ := guarded_operands i.op.shape code (offset + 1) hlt
  rw [hwindow.used i.args next hargs]
  exact ⟨hwindow.le, hwindow.inside⟩

/-- Registers and addresses take as many bytes as they are encoded in. -/
theorem next_operands {kinds : List OperandKind}
    (hfixed : ∀ kind ∈ kinds, kind = .register ∨ kind = .address) {code : Array UInt8}
    {offset next : Nat} {args : Operands UInt32 kinds}
    (h : operands kinds code offset = .ok (args, next)) :
    next = offset + (Operands.encode (fun _ => List.replicate 4 0) kinds args).length := by
  induction kinds generalizing offset with
  | nil =>
    cases h
    rfl
  | cons kind kinds ih =>
    obtain ⟨a, mid, hfirst, h⟩ := bind_eq_ok.mp h
    obtain ⟨rest, mid', hrest, h⟩ := bind_eq_ok.mp h
    cases h
    have hnext := ih (fun k hk => hfixed k (List.mem_cons_of_mem kind hk)) hrest
    unfold Operands.encode
    rw [List.length_append]
    rcases hfixed kind List.mem_cons_self with rfl | rfl
    · have hmid : mid = offset + 1 := (lt_of_byte hfirst).1
      show next = offset + (1 + _)
      omega
    · obtain ⟨n, mid', hword, h⟩ := bind_eq_ok.mp hfirst
      cases h
      have hmid : mid = offset + 4 := next_word hword
      show next = offset + (4 + _)
      omega

/-- An instruction with such operands takes as many bytes as it is encoded in. -/
theorem next_instr {code : Array UInt8} {offset next : Nat} {i : Instr UInt32}
    (hfixed : ∀ kind ∈ i.op.shape, kind = .register ∨ kind = .address)
    (h : instr code offset = .ok (i, next)) : next = offset + i.encodedLength := by
  have hnext := next_operands hfixed (parts_of_instr h).2
  show next =
    offset + (Operands.encode (fun _ => List.replicate 4 0) i.op.shape i.args).length.succ
  omega

end ContractVM.Reader
