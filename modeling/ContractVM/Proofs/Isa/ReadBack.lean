import ContractVM.Machine.Run
import ContractVM.Proofs.Codec.Exact
import ContractVM.Proofs.Isa.Encoding
import ContractVM.Proofs.Isa.Windows

/-! # Instructions read back

    The written form of an instruction is read back from wherever it stands in code,
    whatever surrounds it, and the reader stops right behind it:

    * **Readers and written forms**: `Reader.Reads r bytes a` says that `r` finds `a`
      in exactly `bytes`.  Readers compose, and so do the forms that they read.
    * **Whole rows of instructions**: `Reader.listing` reads code from an offset to its
      end, and undoes the concatenation of encoded instructions. -/

namespace ContractVM

/-! ## Section 1: Readers and written forms -/

namespace Reader

/-- The reader finds `a` in the bytes, wherever they stand, and stops behind them. -/
def Reads {α : Type} (r : Reader α) (bytes : List UInt8) (a : α) : Prop :=
  ∀ (code : Array UInt8) (front back : List UInt8), code.toList = front ++ bytes ++ back →
    r code front.length = .ok (a, front.length + bytes.length)

variable {α β : Type}

theorem reads_pure (a : α) : (pure a : Reader α).Reads [] a := by
  intro code front back _
  rfl

/-- A reader chosen from what the first one found goes on behind it. -/
theorem Reads.bind {r : Reader α} {f : α → Reader β} {bs cs : List UInt8} {a : α} {b : β}
    (hr : r.Reads bs a) (hf : (f a).Reads cs b) : (r >>= f).Reads (bs ++ cs) b := by
  intro code front back hcode
  -- what the second reader takes is behind the first, and the other way round
  have hfirst : r code front.length = .ok (a, front.length + bs.length) := by
    apply hr code front (cs ++ back)
    rw [hcode]; simp only [List.append_assoc]
  have hsecond : f a code (front ++ bs).length = .ok (b, (front ++ bs).length + cs.length) := by
    apply hf code (front ++ bs) back
    rw [hcode]; simp only [List.append_assoc]
  rw [bind_apply, hfirst]
  simp only [List.length_append] at hsecond ⊢
  rw [hsecond, Nat.add_assoc]

/-- What follows may be a choice that reads nothing more. -/
theorem Reads.choice {r : Reader α} {f : α → Reader β} {bs : List UInt8} {a : α} {b : β}
    (hr : r.Reads bs a) (hf : (f a).Reads [] b) : (r >>= f).Reads bs b := by
  have h := hr.bind hf
  rwa [List.append_nil] at h

/-- What follows a look at the position may not depend on it. -/
theorem Reads.position {f : Nat → Reader β} {bs : List UInt8} {b : β}
    (hf : ∀ start, (f start).Reads bs b) : (Reader.position >>= f).Reads bs b := by
  intro code front back hcode
  exact hf front.length code front back hcode

/-- A value computed at the end. -/
theorem Reads.map {r : Reader α} {f : α → β} {bs : List UInt8} {a : α} (hr : r.Reads bs a) :
    (r >>= fun a => pure (f a)).Reads bs (f a) :=
  hr.choice (reads_pure (f a))

theorem reads_chunk (bs : List UInt8) : (chunk bs.length).Reads bs bs.toArray := by
  intro code front back hcode
  have hsize : code.size = front.length + bs.length + back.length := by
    rw [← Array.length_toList, hcode]; simp [Nat.add_assoc]
  have hpart : code.extract front.length (front.length + bs.length) = bs.toArray := by
    apply Array.ext'
    simp [Array.toList_extract, hcode]
  unfold chunk
  rw [if_pos (by omega), hpart]

theorem reads_byte (b : UInt8) : byte.Reads [b] b := by
  intro code front back hcode
  have hb : code[front.length]? = some b := by
    rw [← Array.getElem?_toList, hcode]; simp
  unfold byte
  rw [hb]; rfl

theorem reads_word {width n : Nat} (h : n < LittleEndian.capacity width) :
    (word width).Reads (LittleEndian.bytes width n) n := by
  have hchunk := reads_chunk (LittleEndian.bytes width n)
  rw [LittleEndian.length_bytes] at hchunk
  have hmap := hchunk.map (f := fun bs => LittleEndian.value bs.toList)
  rw [LittleEndian.value_bytes h] at hmap
  exact hmap

/-! ## Section 2: Rows of bytes and texts -/

theorem reads_sized (bs : List UInt8) (h : bs.length < UInt64.size) :
    sized.Reads (Codec.length.encode bs.length ++ bs) bs.toArray :=
  (reads_word h).bind (reads_chunk bs)

theorem reads_bytes (bs : Array UInt8) (h : bs.size < UInt64.size) :
    sized.Reads (Codec.bytes.encode bs) bs := by
  have hsized := reads_sized bs.toList (by rwa [Array.length_toList])
  rwa [← encode_bytes, Array.toArray_toList] at hsized

theorem reads_text {s : String} (start : Nat) (h : s.utf8ByteSize < UInt64.size) :
    (text start).Reads (Codec.string.encode s) s := by
  have hlen : s.toUTF8.data.toList.length = s.utf8ByteSize := by
    rw [Array.length_toList]; rfl
  have hsized := reads_sized s.toUTF8.data.toList (by rwa [hlen])
  rw [hlen, Array.toArray_toList] at hsized
  apply hsized.choice
  have hvalid : String.fromUTF8? ⟨s.toUTF8.data⟩ = some s := Codec.fromUTF8?_eq_some_iff.mpr rfl
  rw [hvalid]
  exact reads_pure s

/-! ## Section 3: Operands -/

theorem reads_type (t : ValueType) : type.Reads [t.tag] t := by
  apply Reads.position
  intro start
  apply (reads_byte t.tag).choice
  rw [ValueType.ofTag?_tag]
  exact reads_pure t

theorem toNat_lt_capacity (n : UInt32) : n.toNat < LittleEndian.capacity 4 := by
  have h := n.toNat_lt
  simp only [LittleEndian.capacity]
  omega

theorem reads_word32 {f : UInt32 → α} (n : UInt32) :
    (word 4 >>= fun k => pure (f (UInt32.ofNat k))).Reads (Codec.u32.encode n) (f n) := by
  have h := (reads_word (toNat_lt_capacity n)).map (f := fun k => f (UInt32.ofNat k))
  rw [UInt32.ofNat_toNat] at h
  exact h

/-- The payload of a literal is read back by the reader for its type. -/
theorem reads_payload (start : Nat) (l : Literal) (h : l.payloadSize < UInt64.size) :
    (payload start l.type).Reads l.payload l := by
  cases l with
  | none => exact reads_pure Literal.none
  | bool b =>
    apply (reads_byte (if b then 1 else 0)).choice
    cases b with
    | false => exact reads_pure _
    | true => exact reads_pure _
  | number n =>
    have hn := (reads_bytes (TwosComplement.encode n).toArray h).map
      (f := fun bs => Literal.number (TwosComplement.decode bs.toList))
    rw [List.toList_toArray, TwosComplement.decode_encode] at hn
    exact hn
  | string s => exact (reads_text start h).map
  | bytes bs => exact (reads_bytes bs h).map
  | timestamp t => exact reads_word32 t
  | enum e => exact reads_word32 e

theorem reads_literal (l : Literal) (h : l.payloadSize < UInt64.size) :
    literal.Reads l.encode l := by
  apply Reads.position
  intro start
  exact (reads_type l.type).bind (reads_payload start l h)

theorem reads_target (t : Target) (h : t.nameSize < UInt64.size) : target.Reads t.encode t := by
  apply Reads.position
  intro start
  cases t with
  | register index =>
    have hindex := (reads_byte index).map (f := Target.register)
    exact (reads_byte Target.registerTag).bind hindex
  | named name =>
    have hname := (reads_text start h).map (f := Target.named)
    exact (reads_byte Target.nameTag).bind hname

/-- An operand of any kind is read back. -/
theorem reads_operand (kind : OperandKind) (a : kind.Carrier UInt32) (h : kind.Fits a) :
    (operand kind).Reads (kind.encode Codec.u32.encode a) a := by
  cases kind with
  | register => exact reads_byte a
  | address => exact reads_word32 (f := id) a
  | literal => exact reads_literal a h
  | type => exact reads_type a
  | target => exact reads_target a h

theorem reads_operands (kinds : List OperandKind) (args : Operands UInt32 kinds)
    (h : Operands.Fits kinds args) :
    (operands kinds).Reads (Operands.encode Codec.u32.encode kinds args) args := by
  induction kinds with
  | nil => exact reads_pure args
  | cons kind kinds ih =>
    obtain ⟨a, rest⟩ := args
    obtain ⟨ha, hrest⟩ := h
    exact (reads_operand kind a ha).bind (ih rest hrest).map

theorem reads_opcode (op : Opcode) : opcode.Reads [op.byte] op := by
  apply Reads.position
  intro start
  apply (reads_byte op.byte).choice
  rw [Opcode.ofByte?_byte]
  exact reads_pure op

/-- The operands behind an opcode are read back by its parameters. -/
theorem reads_arguments (i : Instr UInt32) (h : i.Fits) :
    (arguments i.op).Reads (Operands.encode Codec.u32.encode i.op.shape i.args) i.args := by
  rw [arguments_eq]
  exact reads_operands i.op.shape i.args h

/-- An instruction is read back: its opcode, then the operands of that opcode. -/
theorem reads_instr (i : Instr UInt32) (h : i.Fits) : instr.Reads i.encode i := by
  have hargs := (reads_arguments i h).map (f := fun args => Instr.mk i.op args)
  exact (reads_opcode i.op).bind hargs

/-! ## Section 4: Rows of instructions -/

/-- The instructions from an offset to the end of the code, and where their reading
    stops. -/
def listing (code : Array UInt8) (offset : Nat) : Except CodeFault (List (Instr UInt32) × Nat) :=
  if offset < code.size then
    match _h : instr code offset with
    | .error f => .error f
    | .ok (i, next) =>
      match listing code next with
      | .error f => .error f
      | .ok (rest, stop) => .ok (i :: rest, stop)
  else .ok ([], offset)
termination_by code.size - offset
decreasing_by
  have hnext := lt_of_instr _h
  omega

/-- Behind any code, encoded instructions are listed one by one up to the end. -/
theorem listing_encode (is : List (Instr UInt32)) (his : ∀ i ∈ is, i.Fits)
    (code : Array UInt8) (front : List UInt8)
    (hcode : code.toList = front ++ is.flatMap Instr.encode) :
    listing code front.length = .ok (is, code.size) := by
  induction is generalizing front with
  | nil =>
    have hsize : code.size = front.length := by
      rw [← Array.length_toList, hcode]; simp
    rw [listing, if_neg (by omega), hsize]
  | cons i is ih =>
    rw [List.flatMap_cons, ← List.append_assoc] at hcode
    have hread := reads_instr i (his i List.mem_cons_self) code front _ hcode
    have hpos := i.encodedLength_pos
    rw [← i.length_encode] at hpos
    have hsize : front.length < code.size := by
      rw [← Array.length_toList, hcode]
      simp only [List.length_append]
      omega
    -- for the rest, this instruction belongs to the code in front
    have hrest := ih (fun j hj => his j (List.mem_cons_of_mem i hj)) (front ++ i.encode) hcode
    rw [List.length_append] at hrest
    rw [listing, if_pos hsize]
    split
    · next f hf => rw [hread] at hf; cases hf
    · next j next hj =>
      rw [hread] at hj
      cases hj
      rw [hrest]

end Reader

/-! ## Section 5: Fetching -/

namespace Machine

variable {Ω : Type}

/-- The journal after the opcode of an instruction was noted. -/
def journalAt (env : Env Ω) (m : Machine Ω) (op : Opcode) : Array LogEntry :=
  if env.config.trace then m.journal.push ⟨.debug, m.traceLine op⟩ else m.journal

/-- The machine that has read an instruction at the offset of its frame and stands at
    `next`. -/
def fetched (env : Env Ω) (m : Machine Ω) (op : Opcode) (next : Nat) : Machine Ω :=
  { m with
    frame := { m.frame with ip := next }
    offset := m.frame.ip
    journal := { m with offset := m.frame.ip }.journalAt env op }

/-- An instruction that stands at the offset of the frame is fetched: the frame goes on
    behind it, and nothing else changes but the journal. -/
theorem fetch_of_stands (env : Env Ω) (m : Machine Ω) (i : Instr UInt32) (hi : i.Fits)
    {front back : List UInt8}
    (hcode : m.frame.context.code.toList = front ++ i.encode ++ back)
    (hip : m.frame.ip = front.length) :
    fetch env { m with offset := m.frame.ip } =
      (.ok i, m.fetched env i.op (m.frame.ip + i.encodedLength)) := by
  -- the opcode is noted in the journal before the operands are read
  have hop := Reader.reads_opcode i.op m.frame.context.code front
    (Operands.encode Codec.u32.encode i.op.shape i.args ++ back)
    (by rw [hcode]; simp [Instr.encode, Instr.encodeWith])
  have hargs := Reader.reads_arguments i hi m.frame.context.code (front ++ [i.op.byte]) back
    (by rw [hcode]; simp [Instr.encode, Instr.encodeWith])
  have hlen : i.encode.length = (Operands.encode Codec.u32.encode i.op.shape i.args).length + 1 :=
    rfl
  have hnext : m.frame.ip + i.encodedLength =
      (front ++ [i.op.byte]).length +
        (Operands.encode Codec.u32.encode i.op.shape i.args).length := by
    rw [hip, ← i.length_encode, hlen]
    simp only [List.length_append, List.length_singleton]
    omega
  rw [← hip] at hop
  rw [List.length_append, List.length_singleton, ← hip] at hargs
  unfold fetch fetched
  simp only [hop, List.length_singleton]
  by_cases htrace : env.config.trace
  · simp only [htrace, if_true, note, journalAt, hargs, hnext]
    simp [hip]
  · simp only [htrace, journalAt, hargs, hnext]
    simp [hip]

end Machine

/-- **Instructions read back.** Wherever an encoded instruction stands in the code of the
    current frame, fetching it yields the same opcode with the same operands and leaves
    the frame right behind it; apart from the journal, nothing else changes.  Code that
    is made of encoded instructions is listed as exactly these, up to its end. -/
theorem instructions_read_back {Ω : Type} (env : Env Ω) :
    (∀ (m : Machine Ω) (i : Instr UInt32) (front back : List UInt8), i.Fits →
      m.frame.context.code.toList = front ++ i.encode ++ back → m.frame.ip = front.length →
        ∃ journal, Machine.fetch env { m with offset := m.frame.ip } =
          (.ok i, { m with
            frame := { m.frame with ip := front.length + i.encodedLength }
            offset := front.length
            journal })) ∧
    ∀ is : List (Instr UInt32), (∀ i ∈ is, i.Fits) →
      Reader.listing (is.flatMap Instr.encode).toArray 0 =
        .ok (is, (is.flatMap Instr.encode).length) := by
  constructor
  · intro m i front back hi hcode hip
    refine ⟨{ m with offset := m.frame.ip }.journalAt env i.op, ?_⟩
    rw [Machine.fetch_of_stands env m i hi hcode hip, Machine.fetched, hip]
  · intro is his
    have h := Reader.listing_encode is his (is.flatMap Instr.encode).toArray [] rfl
    rwa [List.size_toArray] at h

/-- `LOAD r3, "né"` between two other bytes of code, and the same in front of `RET`. -/
theorem load_text_reads_back :
    let load : Instr UInt32 := ⟨.load, (3, .string "né", ())⟩
    let ret : Instr UInt32 := ⟨.ret, ()⟩
    let c : Context := ⟨0, "main", .ofCode ([0x14] ++ load.encode ++ [0xff]).toArray⟩
    let env : Env Unit := ⟨{}, c, .empty, .empty⟩
    let m : Machine Unit :=
      { Machine.initial env.config c .empty with frame := Frame.fresh env.config c 1 }
    (load.Fits ∧ ret.Fits ∧
      ∃ journal, Machine.fetch env { m with offset := m.frame.ip } =
        (.ok load, { m with frame := { m.frame with ip := 15 }, offset := 1, journal })) ∧
    Reader.listing ([load, ret].flatMap Instr.encode).toArray 0 = .ok ([load, ret], 15) := by
  intro load ret c env m
  have hsize : "né".utf8ByteSize < UInt64.size := by decide
  have hload : load.Fits := ⟨trivial, hsize, trivial⟩
  have hret : ret.Fits := trivial
  have h := instructions_read_back env
  refine ⟨⟨hload, hret, ?_⟩, ?_⟩
  · exact h.1 m load [0x14] [0xff] hload rfl rfl
  · exact h.2 [load, ret] (by simp [hload, hret])

end ContractVM
