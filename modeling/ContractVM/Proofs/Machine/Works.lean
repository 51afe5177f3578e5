import ContractVM.Machine.Exec
import ContractVM.Proofs.Heap.Closed
import ContractVM.Proofs.Isa.Encoding
import ContractVM.Proofs.Machine.Misread
import ContractVM.Proofs.Machine.Registers

/-! # What instructions are made of

    Instructions are many, but what they do is made of a few kinds of work: they read registers,
    and then store something, push, pop or put, jump, or end without further ado.

    * **Kinds**: `Works` lists them, and ties each one to what the instruction names: the registers
      that it writes, its target, and whether it adds to the heap.
    * **Instructions**: `exec_does` says that each instruction is made of such work, but for
      four: `CALL`, `RET`, `SWITCH` and `EXTCALL`.

    So what holds of every kind of work holds of all instructions but the four, by an induction on
    `Works` in which reading is the step.  The effects of the instruction set are gone through in
    `exec_does` only: an instruction that is added is described there, and what it writes in
    `Instr.written`, unless its work is of a kind of its own. -/

namespace ContractVM

variable {Ω α : Type}

/-! ## Section 1: What instructions name -/

/-- The registers that an instruction names to be changed. -/
def Instr.written : Instr UInt32 → List UInt8
  | ⟨.nop, _⟩ | ⟨.push, _⟩ | ⟨.jmp, _⟩ | ⟨.jmpIf, _⟩ | ⟨.jmpNot, _⟩ | ⟨.call, _⟩ | ⟨.ret, _⟩
  | ⟨.throw, _⟩ | ⟨.extCall, _⟩ | ⟨.switch, _⟩ => []
  | ⟨.load, (dst, _, ())⟩ | ⟨.clear, (dst, ())⟩ | ⟨.pop, (dst, ())⟩ => [dst]
  | ⟨.move, (src, dst, ())⟩ => [src, dst]
  | ⟨.swap, (a, b, ())⟩ => [a, b]
  | ⟨.inc, (reg, ())⟩ | ⟨.dec, (reg, ())⟩ => [reg]
  | ⟨.copy, (_, dst, ())⟩ | ⟨.ctx, (_, dst, ())⟩ | ⟨.cast, (_, dst, _, ())⟩
  | ⟨.size, (_, dst, ())⟩ | ⟨.count, (_, dst, ())⟩ | ⟨.not, (_, dst, ())⟩
  | ⟨.sign, (_, dst, ())⟩ | ⟨.negate, (_, dst, ())⟩ | ⟨.abs, (_, dst, ())⟩
  | ⟨.range, (_, dst, _, _, ())⟩ | ⟨.left, (_, dst, _, ())⟩ | ⟨.right, (_, dst, _, ())⟩
  | ⟨.get, (_, dst, _, ())⟩ => [dst]
  | ⟨.put, (_, container, _, ())⟩ => [container]
  | ⟨.cat, (_, _, dst, ())⟩ | ⟨.and, (_, _, dst, ())⟩ | ⟨.or, (_, _, dst, ())⟩
  | ⟨.xor, (_, _, dst, ())⟩ | ⟨.equal, (_, _, dst, ())⟩ | ⟨.lt, (_, _, dst, ())⟩
  | ⟨.gt, (_, _, dst, ())⟩ | ⟨.lte, (_, _, dst, ())⟩ | ⟨.gte, (_, _, dst, ())⟩
  | ⟨.add, (_, _, dst, ())⟩ | ⟨.sub, (_, _, dst, ())⟩ | ⟨.mul, (_, _, dst, ())⟩
  | ⟨.div, (_, _, dst, ())⟩ | ⟨.mod, (_, _, dst, ())⟩ | ⟨.shl, (_, _, dst, ())⟩
  | ⟨.shr, (_, _, dst, ())⟩ | ⟨.min, (_, _, dst, ())⟩ | ⟨.max, (_, _, dst, ())⟩
  | ⟨.pow, (_, _, dst, ())⟩ => [dst]

/-- The registers among operands that their parameters write. -/
def Operands.written :
    (params : List Parameter) → Operands UInt32 (params.map Parameter.kind) → List UInt8
  | [], () => []
  | .source _ :: params, (_, rest) => written params rest
  | .destination :: params, (reg, rest) => reg :: written params rest
  | .updated :: params, (reg, rest) => reg :: written params rest

/-- What an instruction names to be changed are the operands that the decoder takes for written. -/
theorem Instr.written_eq (i : Instr UInt32) :
    i.written = Operands.written i.op.parameters (i.op.parameters_kinds.symm ▸ i.args) := by
  obtain ⟨op, args⟩ := i
  cases op <;> rfl

namespace Opcode

/-- The instructions after which another frame is the current one. -/
def framing : List Opcode := [.call, .switch, .ret]

/-- The instructions that add to the heap. -/
def allocating : List Opcode := [.copy, .ctx, .cast]

end Opcode

/-! ## Section 2: Values on the way -/

/-- Does the value live in every heap in which the values live that were read so far? -/
def Value.LivesWith (Ω : Type) (known : List Value) (v : Value) : Prop :=
  ∀ h : Heap Ω, (∀ w ∈ known, w.LivesIn h) → v.LivesIn h

theorem Value.livesWith_of_mem {known : List Value} {v : Value} (hv : v ∈ known) :
    v.LivesWith Ω known :=
  fun _ hknown => hknown v hv

theorem Value.LivesWith.mono {known known' : List Value} {v : Value} (hv : v.LivesWith Ω known)
    (hsub : known ⊆ known') : v.LivesWith Ω known' :=
  fun h hknown => hv h fun w hw => hknown w (hsub hw)

/-- What is asked of structs. -/
inductive Question where
  | count (v : Value)
  | equal (v w : Value)
  | get (container key : Value)

/-- What is made in the heap. -/
inductive Product where
  | copy (v : Value)
  | cast (v : Value) (type : ValueType)
  | handle (name : String)

/-- The values that a product is made of. -/
def Product.parts : Product → List Value
  | .copy v => [v]
  | .cast v _ => [v]
  | .handle _ => []

section Heap

variable [HostData Ω]

def Question.answer (h : Heap Ω) (instruction : String) : Question → Except Fault Value
  | .count v => do
    let count ← h.count v instruction
    return .number count
  | .equal v w => do
    let same ← h.equal v w instruction
    return .bool same
  | .get container key => h.get container key instruction

/-- A product, and the heap that holds it. -/
def Product.make (env : Env Ω) (h : Heap Ω) (instruction : String) :
    Product → Except Fault (Value × Heap Ω)
  | .copy v => h.deepCopy v instruction
  | .cast v type => h.cast v type instruction
  | .handle name => do
    let c ← env.registry.resolve name
    let (r, heap) := h.addObject (.context c)
    return (.object r, heap)

end Heap

/-! ## Section 3: Kinds of work -/

/-- What may be done on a machine. -/
abbrev Work (Ω : Type) := Env Ω → Machine Ω → Outcome Ω Unit

namespace Machine

/-- Goes on with what was computed, if it was. -/
def attempt (m : Machine Ω) (r : Except Fault α) (next : α → Outcome Ω Unit) : Outcome Ω Unit :=
  match r with
  | .ok a => next a
  | .error f => (.error f, m)

theorem store_bind (m : Machine Ω) (dst : UInt8) (r : Except Fault α)
    (g : α → Except Fault Value) :
    m.store dst (r >>= g) = m.attempt r fun a => m.store dst (g a) := by
  cases r with
  | error f => rfl
  | ok a => rfl

theorem storeWithHeap_bind (m : Machine Ω) (dst : UInt8) (r : Except Fault α)
    (g : α → Except Fault (Value × Heap Ω)) :
    m.storeWithHeap dst (r >>= g) = m.attempt r fun a => m.storeWithHeap dst (g a) := by
  cases r with
  | error f => rfl
  | ok a => rfl

/-- Replaces the values in registers of the current frame, one after the other. -/
def setRegisters (m : Machine Ω) (changes : List (UInt8 × Value)) : Machine Ω :=
  { m with
    frame :=
      { m.frame with
        registers := changes.foldl (fun registers change =>
          registers.setIfInBounds change.1.toNat change.2) m.frame.registers } }

theorem setRegisters_cons (m : Machine Ω) (index : UInt8) (v : Value)
    (changes : List (UInt8 × Value)) :
    m.setRegisters ((index, v) :: changes) = (m.setRegister index v).setRegisters changes := rfl

@[simp] theorem setRegisters_size (m : Machine Ω) (changes : List (UInt8 × Value)) :
    (m.setRegisters changes).frame.registers.size = m.frame.registers.size := by
  induction changes generalizing m with
  | nil => rfl
  | cons change changes ih =>
    rw [setRegisters_cons, ih, setRegister_size]

/-- The other registers keep what they hold. -/
theorem setRegisters_of_ne (m : Machine Ω) {changes : List (UInt8 × Value)} {k : Nat}
    (h : ∀ change ∈ changes, k ≠ change.1.toNat) :
    (m.setRegisters changes).frame.registers[k]? = m.frame.registers[k]? := by
  induction changes generalizing m with
  | nil => rfl
  | cons change changes ih =>
    obtain ⟨hfirst, hrest⟩ := List.forall_mem_cons.mp h
    rw [setRegisters_cons, ih _ hrest, setRegister_of_ne _ _ hfirst]

end Machine

variable [HostData Ω]

/-- The work that the instruction may do once the values in the list were read. -/
inductive Works (i : Instr UInt32) : List Value → Work Ω → Prop where
  /-- Nothing, or a fault that does not blame the code. -/
  | ends {known : List Value} {r : Except Fault Unit} (hr : Legible r) :
    Works i known fun _ m => (r, m)
  /-- A register is read, and what comes then may depend on its value. -/
  | reads {known : List Value} (index : UInt8) {next : Value → Work Ω}
    (hnext : ∀ v, Works i (v :: known) (next v)) :
    Works i known fun env m => m.attempt (m.register index) fun v => next v env m
  /-- Registers that were found are written. -/
  | sets {known : List Value} {changes : List (UInt8 × Value)}
    (hwritten : ∀ change ∈ changes, change.1 ∈ i.written)
    (hlives : ∀ change ∈ changes, change.2.LivesWith Ω known) :
    Works i known fun _ m => (.ok (), m.setRegisters changes)
  /-- The answer of the heap to a question is stored. -/
  | asks {known : List Value} {dst : UInt8} (hdst : dst ∈ i.written) (q : Question)
    (instruction : String) :
    Works i known fun _ m => m.store dst (q.answer m.heap instruction)
  /-- A product is stored, together with the heap that holds it. -/
  | makes {known : List Value} {dst : UInt8} (hdst : dst ∈ i.written) {p : Product}
    (hknown : ∀ v ∈ p.parts, v ∈ known) (hop : i.op ∈ Opcode.allocating) (instruction : String) :
    Works i known fun env m => m.storeWithHeap dst (p.make env m.heap instruction)
  | pushes {known : List Value} {src : UInt8} (hi : i = ⟨.push, (src, ())⟩) :
    Works i known fun env m => m.pushRegister env.config src
  | pops {known : List Value} {dst : UInt8} (hi : i = ⟨.pop, (dst, ())⟩) (instruction : String) :
    Works i known fun _ m => m.popRegister instruction dst
  | puts {known : List Value} {value container key : UInt8}
    (hi : i = ⟨.put, (value, container, key, ())⟩) (instruction : String) :
    Works i known fun _ m => m.putEntry instruction value container key
  | jumps {known : List Value} {target : UInt32} (htarget : i.target? = some target) :
    Works i known fun _ m => m.jump target

/-! ## Section 4: Work that is put together -/

namespace Machine

/-- Is this read off one register? -/
def OfRegister (r : Machine Ω → Except Fault α) : Prop :=
  ∃ (index : UInt8) (f : Value → Except Fault α), (∀ v, Legible (f v)) ∧
    ∀ m, r m = m.register index >>= f

section OfRegister

omit [HostData Ω]

theorem ofRegister_register (index : UInt8) :
    OfRegister fun m : Machine Ω => m.register index := by
  refine ⟨index, .ok, fun v => .ok v, fun m => ?_⟩
  show m.register index = m.register index >>= .ok
  cases m.register index with
  | error f => rfl
  | ok v => rfl

/-- What is computed from it is read off the register, too. -/
theorem OfRegister.bind {β : Type} {r : Machine Ω → Except Fault α} {g : α → Except Fault β}
    (hr : OfRegister r) (hg : ∀ a, Legible (g a)) : OfRegister fun m => r m >>= g := by
  obtain ⟨index, f, hf, heq⟩ := hr
  refine ⟨index, fun v => f v >>= g, fun v => (hf v).bind hg, fun m => ?_⟩
  dsimp only
  rw [heq m]
  cases m.register index with
  | error e => rfl
  | ok v => rfl

variable (instruction : String) (index : UInt8)

theorem ofRegister_boolIn : OfRegister fun m : Machine Ω => m.boolIn instruction index :=
  (ofRegister_register index).bind fun v => v.legible_strictBool instruction

theorem ofRegister_numberIn : OfRegister fun m : Machine Ω => m.numberIn instruction index :=
  (ofRegister_register index).bind fun v => v.legible_asNumber instruction

theorem ofRegister_stringIn : OfRegister fun m : Machine Ω => m.stringIn instruction index :=
  (ofRegister_register index).bind fun v => v.legible_strictString instruction

theorem ofRegister_indexIn : OfRegister fun m : Machine Ω => m.indexIn instruction index :=
  (ofRegister_numberIn instruction index).bind fun n => legible_toIndex n instruction

theorem ofRegister_shiftIn : OfRegister fun m : Machine Ω => m.shiftIn instruction index :=
  (ofRegister_numberIn instruction index).bind fun n => legible_toShift n instruction

end OfRegister

end Machine

namespace Works

open Machine

variable {i : Instr UInt32} {known : List Value} {w w' : Work Ω}

theorem of_eq (hw : Works i known w) (heq : ∀ env m, w' env m = w env m) : Works i known w' := by
  have hsame : w' = w := by
    funext env m
    exact heq env m
  rw [hsame]
  exact hw

/-- It does no harm to know more. -/
theorem mono (hw : Works i known w) {known' : List Value} (hsub : known ⊆ known') :
    Works i known' w := by
  induction hw generalizing known' with
  | ends hr => exact .ends hr
  | reads index _ ih => exact .reads index fun v => ih v (List.cons_subset_cons v hsub)
  | sets hwritten hlives =>
    exact .sets hwritten fun change hchange => (hlives change hchange).mono hsub
  | asks hdst q instruction => exact .asks hdst q instruction
  | makes hdst hparts hop instruction =>
    exact .makes hdst (fun v hv => hsub (hparts v hv)) hop instruction
  | pushes hi => exact .pushes hi
  | pops hi instruction => exact .pops hi instruction
  | puts hi instruction => exact .puts hi instruction
  | jumps htarget => exact .jumps htarget

/-- Goes on with what is read off a register. -/
theorem operand {r : Machine Ω → Except Fault α} (hr : OfRegister r) {next : α → Work Ω}
    (hnext : ∀ a, Works i known (next a)) :
    Works i known fun env m => m.attempt (r m) fun a => next a env m := by
  obtain ⟨index, f, hf, heq⟩ := hr
  have hvalue : ∀ v, Works i (v :: known) fun env m => m.attempt (f v) fun a => next a env m := by
    intro v
    -- the value is known, so that the machine has no say any more
    cases hfv : f v with
    | error e => exact .ends (.error (hf v e hfv))
    | ok a => exact (hnext a).mono (List.subset_cons_self v known)
  refine (Works.reads index hvalue).of_eq fun env m => ?_
  rw [heq m]
  cases m.register index with
  | error e => rfl
  | ok v => rfl

variable {dst : UInt8}

/-- A value is stored in a register that there is. -/
theorem assigned (hdst : dst ∈ i.written) {v : Value} (hv : v.LivesWith Ω known) :
    Works i known fun (_ : Env Ω) m => m.assign dst v := by
  have hsets : ∀ old, Works i (old :: known) fun (_ : Env Ω) m =>
      (.ok (), m.setRegisters [(dst, v)]) := by
    intro old
    refine .sets ?_ ?_
    · simpa using hdst
    · simpa using hv.mono (List.subset_cons_self old known)
  refine (Works.reads dst hsets).of_eq fun env m => ?_
  unfold assign
  cases m.register dst with
  | error f => rfl
  | ok old => rfl

/-- What was computed without the machine is stored, if it was. -/
theorem stored (hdst : dst ∈ i.written) {r : Except Fault Value} (hr : Legible r)
    (hlives : ∀ h : Heap Ω, Yields (Value.LivesIn h) r) :
    Works i known fun (_ : Env Ω) m => m.store dst r := by
  cases hresult : r with
  | error f => exact .ends (.error (hr f hresult))
  | ok v => exact assigned hdst fun h _ => hlives h v hresult

/-- An operand is read before what is stored is computed. -/
theorem storedWith {r : Machine Ω → Except Fault α} (hr : OfRegister r)
    {g : Machine Ω → α → Except Fault Value}
    (hnext : ∀ a, Works i known fun _ m => m.store dst (g m a)) :
    Works i known fun _ m => m.store dst (r m >>= g m) :=
  (operand hr hnext).of_eq fun _ m => m.store_bind dst (r m) (g m)

theorem madeWith {r : Machine Ω → Except Fault α} (hr : OfRegister r)
    {g : Env Ω → Machine Ω → α → Except Fault (Value × Heap Ω)}
    (hnext : ∀ a, Works i known fun env m => m.storeWithHeap dst (g env m a)) :
    Works i known fun env m => m.storeWithHeap dst (r m >>= g env m) :=
  (operand hr hnext).of_eq fun env m => m.storeWithHeap_bind dst (r m) (g env m)

/-- A value that refers to nothing is computed from one operand. -/
theorem fromOne {r : Machine Ω → Except Fault α} (hr : OfRegister r) {f : α → Value}
    (hdst : dst ∈ i.written) (hf : ∀ a (h : Heap Ω), (f a).LivesIn h) :
    Works i known fun (_ : Env Ω) m => m.store dst (r m >>= fun a => .ok (f a)) :=
  storedWith hr fun a => stored hdst (.ok _) fun h => .ok (hf a h)

/-- The same for two operands, which are read one after the other. -/
theorem fromTwo {β : Type} {r : Machine Ω → Except Fault α} {s : Machine Ω → Except Fault β}
    (hr : OfRegister r) (hs : OfRegister s) {f : α → β → Value} (hdst : dst ∈ i.written)
    (hf : ∀ a b (h : Heap Ω), (f a b).LivesIn h) :
    Works i known fun (_ : Env Ω) m =>
      m.store dst (r m >>= fun a => s m >>= fun b => .ok (f a b)) :=
  storedWith hr fun a => fromOne hs hdst (hf a)

/-! ### Single instructions -/

variable (instruction : String)

/-- The dividend is read if the divisor is not zero. -/
theorem division (f : Int → Int → Int) (a b : UInt8) (hdst : dst ∈ i.written) :
    Works i known fun (_ : Env Ω) m => m.division instruction f a b dst := by
  refine storedWith (ofRegister_numberIn instruction b) fun y => ?_
  by_cases hy : y = 0
  · simp only [if_pos hy]
    exact stored hdst (.error rfl) fun _ => .error _
  · simp only [if_neg hy]
    exact fromOne (ofRegister_numberIn instruction a) hdst fun _ _ => trivial

/-- A branch jumps, or does nothing. -/
theorem branch (wanted : Bool) (cond : UInt8) {target : UInt32}
    (htarget : i.target? = some target) :
    Works i known fun (_ : Env Ω) m => m.branch instruction wanted cond target := by
  have hnext : ∀ b, Works i known fun (_ : Env Ω) m =>
      if b = wanted then m.jump target else (.ok (), m) := by
    intro b
    by_cases hb : b = wanted
    · simp only [if_pos hb]
      exact .jumps htarget
    · simp only [if_neg hb]
      exact .ends (.ok ())
  refine (operand (ofRegister_boolIn instruction cond) hnext).of_eq fun env m => ?_
  unfold Machine.branch
  cases m.boolIn instruction cond with
  | error f => rfl
  | ok b => rfl

/-- The value was read, so that it lives where it comes to. -/
theorem move {src : UInt8} (hsrc : src ∈ i.written) (hdst : dst ∈ i.written) :
    Works i known fun (_ : Env Ω) m => m.move src dst := by
  have hmoves : ∀ old v, Works i (v :: old :: known) fun (_ : Env Ω) m =>
      (.ok (), m.setRegisters [(src, .none), (dst, v)]) := by
    intro old v
    refine .sets ?_ ?_
    · simpa using ⟨hsrc, hdst⟩
    · have hv : v.LivesWith Ω (v :: old :: known) := Value.livesWith_of_mem List.mem_cons_self
      simpa using ⟨fun _ _ => trivial, hv⟩
  by_cases heq : src = dst
  · -- the register is found, and that is all
    refine (Works.reads dst fun old => .ends (.ok ())).of_eq fun env m => ?_
    unfold Machine.move
    rw [if_pos heq]
    cases m.register dst with
    | error f => rfl
    | ok old => rfl
  · refine (Works.reads dst fun old => .reads src (hmoves old)).of_eq fun env m => ?_
    unfold Machine.move
    rw [if_neg heq]
    cases m.register dst with
    | error f => rfl
    | ok old =>
      cases m.register src with
      | error f => rfl
      | ok v => rfl

theorem swap {a b : UInt8} (ha : a ∈ i.written) (hb : b ∈ i.written) :
    Works i known fun (_ : Env Ω) m => m.swap a b := by
  have hswaps : ∀ v w, Works i (w :: v :: known) fun (_ : Env Ω) m =>
      (.ok (), m.setRegisters [(a, w), (b, v)]) := by
    intro v w
    refine .sets ?_ ?_
    · simpa using ⟨ha, hb⟩
    · have hv : v.LivesWith Ω (w :: v :: known) := Value.livesWith_of_mem (by simp)
      have hw : w.LivesWith Ω (w :: v :: known) := Value.livesWith_of_mem List.mem_cons_self
      simpa using ⟨hw, hv⟩
  refine (Works.reads a fun v => .reads b (hswaps v)).of_eq fun env m => ?_
  unfold Machine.swap
  cases m.register a with
  | error f => rfl
  | ok v =>
    cases m.register b with
    | error f => rfl
    | ok w => rfl

theorem throwText (msg : UInt8) :
    Works i known fun (_ : Env Ω) m => m.throwText instruction msg := by
  have hthrows : ∀ message, Works i known fun (_ : Env Ω) m =>
      (.error (.userThrow message), m) := fun _ => .ends (.error rfl)
  refine (operand (ofRegister_stringIn instruction msg) hthrows).of_eq fun env m => ?_
  unfold Machine.throwText
  cases m.stringIn instruction msg with
  | error f => rfl
  | ok message => rfl

/-- A value is made from the one in a register. -/
theorem madeFrom (src : UInt8) (hdst : dst ∈ i.written) (hop : i.op ∈ Opcode.allocating)
    {p : Value → Product} (hparts : ∀ v, (p v).parts = [v]) :
    Works i known fun (env : Env Ω) m =>
      m.storeWithHeap dst (m.register src >>= fun v => (p v).make env m.heap instruction) := by
  have hmakes : ∀ v, Works i (v :: known) fun (env : Env Ω) m =>
      m.storeWithHeap dst ((p v).make env m.heap instruction) := by
    intro v
    refine .makes hdst ?_ hop instruction
    rw [hparts]
    simp
  exact (Works.reads src hmakes).of_eq fun env m => m.storeWithHeap_bind dst (m.register src) _

end Works

/-! ## Section 5: The instruction set -/

/-- What an instruction is made of. -/
inductive Does (Ω : Type) [HostData Ω] (i : Instr UInt32) : Prop where
  | works (h : Works i [] fun (env : Env Ω) m => m.exec env i)
  | calls (target : UInt32) (hi : i = ⟨.call, (target, ())⟩)
  | returns (hi : i = ⟨.ret, ()⟩)
  | switches (handle : UInt8) (hi : i = ⟨.switch, (handle, ())⟩)
  | callsHost (target : Target) (hi : i = ⟨.extCall, (target, ())⟩)

open Machine Works in
/-- Every instruction is made of work, or is one of four.  The cases are those of the instruction
    set. -/
theorem exec_does (i : Instr UInt32) : Does Ω i := by
  obtain ⟨op, args⟩ := i
  cases op with
  | nop => exact .works (.ends (.ok ()))
  | move =>
    obtain ⟨src, dst, ⟨⟩⟩ := args
    exact .works (move List.mem_cons_self (List.mem_cons_of_mem _ List.mem_cons_self))
  | copy =>
    obtain ⟨src, dst, ⟨⟩⟩ := args
    have hop : Opcode.copy ∈ Opcode.allocating := by decide
    exact .works (madeFrom _ src List.mem_cons_self hop (p := .copy) fun _ => rfl)
  | swap =>
    obtain ⟨a, b, ⟨⟩⟩ := args
    exact .works (swap List.mem_cons_self (List.mem_cons_of_mem _ List.mem_cons_self))
  | load =>
    obtain ⟨dst, literal, ⟨⟩⟩ := args
    refine .works (assigned List.mem_cons_self fun _ _ => ?_)
    cases literal <;> exact trivial
  | clear =>
    obtain ⟨dst, ⟨⟩⟩ := args
    exact .works (assigned List.mem_cons_self fun _ _ => trivial)
  | push =>
    obtain ⟨src, ⟨⟩⟩ := args
    exact .works (.pushes rfl)
  | pop =>
    obtain ⟨dst, ⟨⟩⟩ := args
    exact .works (.pops rfl _)
  | jmp =>
    obtain ⟨target, ⟨⟩⟩ := args
    exact .works (.jumps rfl)
  | jmpIf =>
    obtain ⟨cond, target, ⟨⟩⟩ := args
    exact .works (branch _ true cond rfl)
  | jmpNot =>
    obtain ⟨cond, target, ⟨⟩⟩ := args
    exact .works (branch _ false cond rfl)
  | call =>
    obtain ⟨target, ⟨⟩⟩ := args
    exact .calls target rfl
  | ret => exact .returns rfl
  | throw =>
    obtain ⟨msg, ⟨⟩⟩ := args
    exact .works (throwText _ msg)
  | extCall =>
    obtain ⟨target, ⟨⟩⟩ := args
    exact .callsHost target rfl
  | ctx =>
    obtain ⟨context, dst, ⟨⟩⟩ := args
    have hop : Opcode.ctx ∈ Opcode.allocating := by decide
    exact .works (madeWith (ofRegister_stringIn _ context) fun name =>
      .makes List.mem_cons_self (p := .handle name) (fun _ hv => nomatch hv) hop
        Opcode.ctx.mnemonic)
  | switch =>
    obtain ⟨handle, ⟨⟩⟩ := args
    exact .switches handle rfl
  | cast =>
    obtain ⟨src, dst, type, ⟨⟩⟩ := args
    have hop : Opcode.cast ∈ Opcode.allocating := by decide
    exact .works (madeFrom _ src List.mem_cons_self hop (p := (.cast · type)) fun _ => rfl)
  | cat =>
    obtain ⟨a, b, dst, ⟨⟩⟩ := args
    exact .works (storedWith (ofRegister_register a) fun v =>
      storedWith (ofRegister_register b) fun w =>
        stored List.mem_cons_self (v.legible_cat w _) fun _ => v.livesIn_of_cat w _)
  | range =>
    obtain ⟨src, dst, index, length, ⟨⟩⟩ := args
    exact .works (storedWith (ofRegister_indexIn _ index) fun i =>
      storedWith (ofRegister_indexIn _ length) fun n =>
        storedWith (ofRegister_register src) fun v =>
          stored List.mem_cons_self (v.legible_range _ i n) fun _ => v.livesIn_of_range _ i n)
  | left =>
    obtain ⟨src, dst, length, ⟨⟩⟩ := args
    -- the first part of a value is its range from 0 on
    exact .works (storedWith (ofRegister_indexIn _ length) fun n =>
      storedWith (ofRegister_register src) fun v =>
        stored List.mem_cons_self (v.legible_range _ 0 n) fun _ => v.livesIn_of_range _ 0 n)
  | right =>
    obtain ⟨src, dst, length, ⟨⟩⟩ := args
    exact .works (storedWith (ofRegister_indexIn _ length) fun n =>
      storedWith (ofRegister_register src) fun v =>
        stored List.mem_cons_self (v.legible_right _ n) fun _ => v.livesIn_of_right _ n)
  | size =>
    obtain ⟨src, dst, ⟨⟩⟩ := args
    exact .works (storedWith (ofRegister_register src) fun v =>
      stored List.mem_cons_self ((v.legible_size _).bind fun _ => .ok _) fun _ =>
        .bind fun _ _ => .ok trivial)
  | count =>
    obtain ⟨src, dst, ⟨⟩⟩ := args
    exact .works (storedWith (ofRegister_register src) fun v =>
      .asks List.mem_cons_self (.count v) _)
  | not =>
    obtain ⟨src, dst, ⟨⟩⟩ := args
    exact .works (fromOne (ofRegister_boolIn _ src) List.mem_cons_self fun _ _ => trivial)
  | and | or | xor =>
    obtain ⟨a, b, dst, ⟨⟩⟩ := args
    exact .works (fromTwo (ofRegister_boolIn _ a) (ofRegister_boolIn _ b) List.mem_cons_self
      fun _ _ _ => trivial)
  | equal =>
    obtain ⟨a, b, dst, ⟨⟩⟩ := args
    exact .works (storedWith (ofRegister_register a) fun v =>
      storedWith (ofRegister_register b) fun w => .asks List.mem_cons_self (.equal v w) _)
  | lt | gt | lte | gte =>
    obtain ⟨a, b, dst, ⟨⟩⟩ := args
    exact .works (fromTwo (ofRegister_numberIn _ a) (ofRegister_numberIn _ b) List.mem_cons_self
      fun _ _ _ => trivial)
  | inc | dec =>
    obtain ⟨reg, ⟨⟩⟩ := args
    exact .works (fromOne (ofRegister_numberIn _ reg) List.mem_cons_self fun _ _ => trivial)
  | sign | negate | abs =>
    obtain ⟨src, dst, ⟨⟩⟩ := args
    exact .works (fromOne (ofRegister_numberIn _ src) List.mem_cons_self fun _ _ => trivial)
  | add | sub | mul | min | max =>
    obtain ⟨a, b, dst, ⟨⟩⟩ := args
    exact .works (fromTwo (ofRegister_numberIn _ a) (ofRegister_numberIn _ b) List.mem_cons_self
      fun _ _ _ => trivial)
  | div | mod =>
    obtain ⟨a, b, dst, ⟨⟩⟩ := args
    exact .works (division _ _ a b List.mem_cons_self)
  | shl | shr | pow =>
    obtain ⟨a, b, dst, ⟨⟩⟩ := args
    exact .works (fromTwo (ofRegister_shiftIn _ b) (ofRegister_numberIn _ a) List.mem_cons_self
      fun _ _ _ => trivial)
  | put =>
    obtain ⟨value, container, key, ⟨⟩⟩ := args
    exact .works (.puts rfl _)
  | get =>
    obtain ⟨container, dst, key, ⟨⟩⟩ := args
    exact .works (storedWith (ofRegister_register container) fun c =>
      storedWith (ofRegister_register key) fun k => .asks List.mem_cons_self (.get c k) _)

end ContractVM
