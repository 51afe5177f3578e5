import ContractVM.Proofs.Heap.Mirrors
import ContractVM.Proofs.Heap.Puts
import ContractVM.Proofs.Isa.Windows
import ContractVM.Proofs.Machine.Atomic

/-! # What instructions leave alone

    An instruction that succeeds changes what it names, and nothing else:

    * **Acts**: the ways in which work can succeed are listed once, each with the machine that it
      leaves, whichever of its registers are the same.
    * **Parts**: for each part of a machine, the list says which instructions leave it alone.
    * **Changes**: what the others do to it is read off the instructions.

    `EXTCALL` is left out, since a host function may do as it likes. -/

namespace ContractVM

variable {Ω : Type}

namespace Opcode

theorem mem_framing {op : Opcode} (hop : op = .call ∨ op = .switch) : op ∈ framing := by
  rcases hop with rfl | rfl
  · decide
  · decide

end Opcode

namespace Machine

/-! ## Section 1: Success of single instructions -/

section Success

variable {m m' : Machine Ω}

theorem store_eq_ok {dst : UInt8} {r : Except Fault Value}
    (hstore : m.store dst r = (.ok (), m')) : ∃ v, m' = m.setRegister dst v := by
  cases r with
  | error f => cases hstore
  | ok v =>
    unfold store assign at hstore
    dsimp only at hstore
    split at hstore
    · cases hstore
      exact ⟨v, rfl⟩
    · cases hstore

theorem storeWithHeap_eq_ok {dst : UInt8} {r : Except Fault (Value × Heap Ω)}
    (hstore : m.storeWithHeap dst r = (.ok (), m')) :
    ∃ v heap, r = .ok (v, heap) ∧ m' = { m.setRegister dst v with heap } := by
  unfold storeWithHeap at hstore
  split at hstore
  · next v heap _ _ =>
    cases hstore
    exact ⟨v, heap, rfl, rfl⟩
  · cases hstore
  · cases hstore

/-- The value is at the destination, and a source that is another register is empty. -/
theorem moved_of_move {src dst : UInt8} (hmove : m.move src dst = (.ok (), m')) :
    m'.register dst = m.register src ∧ (src ≠ dst → m'.register src = .ok .none) := by
  unfold move at hmove
  split at hmove
  · cases hmove
  · next w hdst =>
    split at hmove
    · next heq =>
      cases hmove
      subst heq
      exact ⟨rfl, fun hne => absurd rfl hne⟩
    · next hne =>
      split at hmove
      · cases hmove
      · next v hsrc =>
        cases hmove
        have hemptied := m.register_setRegister_of_ne (Ne.symm hne) .none
        have hthere : (m.setRegister src .none).register dst = .ok w := hemptied.trans hdst
        refine ⟨(register_setRegister _ hthere v).trans hsrc.symm, fun _ => ?_⟩
        rw [register_setRegister_of_ne _ hne]
        exact register_setRegister _ hsrc .none

theorem swapped_of_swap {a b : UInt8} (hswap : m.swap a b = (.ok (), m')) :
    m'.register a = m.register b ∧ m'.register b = m.register a := by
  unfold swap at hswap
  split at hswap
  · cases hswap
  · cases hswap
  · next v w ha hb =>
    cases hswap
    rw [ha, hb]
    by_cases hab : a = b
    · -- the register holds one value
      subst hab
      cases ha.symm.trans hb
      have hthere := register_setRegister _ ha v
      exact ⟨register_setRegister _ hthere v, register_setRegister _ hthere v⟩
    · have hthere : (m.setRegister a w).register b = .ok w := by
        rw [register_setRegister_of_ne _ (Ne.symm hab), hb]
      refine ⟨?_, register_setRegister _ hthere v⟩
      rw [register_setRegister_of_ne _ hab]
      exact register_setRegister _ ha w

/-- One value more is on top of the stack. -/
theorem pushRegister_eq_ok {config : Config} {src : UInt8}
    (hpush : m.pushRegister config src = (.ok (), m')) :
    ∃ v, m.register src = .ok v ∧ m' = { m with stack := m.stack.push v } := by
  unfold pushRegister at hpush
  split at hpush
  · cases hpush
  · next v hsrc =>
    unfold push at hpush
    split at hpush
    · cases hpush
      exact ⟨v, hsrc, rfl⟩
    · cases hpush

/-- The value on top of the stack has come to the destination. -/
theorem popRegister_eq_ok {instruction : String} {dst : UInt8}
    (hpop : m.popRegister instruction dst = (.ok (), m')) :
    ∃ v w rest, m.register dst = .ok w ∧ m.stack = rest.push v ∧
      m' = { m.setRegister dst v with stack := rest } := by
  unfold popRegister pop at hpop
  split at hpop
  · cases hpop
  · next w hdst =>
    cases hback : m.stack.back? with
    | none =>
      rw [hback] at hpop
      cases hpop
    | some v =>
      rw [hback] at hpop
      cases hpop
      obtain ⟨rest, hrest⟩ := Array.back?_eq_some_iff.mp hback
      have hpopped : m.stack.pop = rest := by rw [hrest, Array.pop_push]
      refine ⟨v, w, rest, hdst, hrest, ?_⟩
      show ({ m.setRegister dst v with stack := m.stack.pop } : Machine Ω) = _
      rw [hpopped]

theorem putEntry_eq_ok [HostData Ω] {instruction : String} {value container key : UInt8}
    (hput : m.putEntry instruction value container key = (.ok (), m')) :
    ∃ v k c r h, m.register value = .ok v ∧ m.register key = .ok k ∧
      m.register container = .ok c ∧ k.isScalar = true ∧ m.heap.Opens c r h ∧
      m' = { m.setRegister container (.struct r) with heap := h.insertEntry r k v } := by
  rcases m.putEntry_eq instruction value container key with ⟨f, heq⟩ | ⟨v, k, c, hv, hk, hc, heq⟩
  · rw [heq] at hput
    cases hput
  · rw [heq] at hput
    have hputs := m.heap.puts_put c k v instruction
    generalize m.heap.put c k v instruction = p at hputs hput
    cases hputs with
    | @stored r h _ hscalar hopens =>
      cases hput
      exact ⟨v, k, c, r, h, hv, hk, hc, hscalar, hopens, rfl⟩
    | badKey => cases hput
    | badContainer => cases hput
    | cyclic => cases hput
    | tooDeep => cases hput

/-- A fresh frame goes on, and the current one waits. -/
theorem Enters.eq_of_ok {config : Config} {o : Outcome Ω Unit} (henters : Enters config m o)
    (hok : o = (.ok (), m')) :
    ∃ c ip journal, m' = { m with
      frame := Frame.fresh config c ip
      callers := m.frame :: m.callers
      journal } := by
  cases henters with
  | @entered c ip _ _ journal =>
    cases hok
    exact ⟨c, ip, journal, rfl⟩
  | refused => cases hok

/-- The frame that waited goes on; if none did, the machine halts where it is. -/
theorem left_of_leave (m : Machine Ω) :
    (m.callers = [] ∧ m.leave.callers = [] ∧ m.leave.frame = m.frame ∧ m.leave.status = .halt) ∨
      m.callers = m.leave.frame :: m.leave.callers := by
  cases hcallers : m.callers with
  | nil =>
    rw [m.leave_of_nil hcallers]
    exact .inl ⟨rfl, hcallers, rfl, rfl⟩
  | cons caller callers =>
    obtain ⟨-, hframe, hrest⟩ := m.leave_of_cons hcallers
    rw [hframe, hrest]
    exact .inr rfl

end Success

/-! ## Section 2: Acts -/

section Acts

/-- The machines that an instruction leaves when it succeeds. -/
inductive Acts (config : Config) (m : Machine Ω) (i : Instr UInt32) : Machine Ω → Prop where
  | goesOn (ip : Nat) : Acts config m i { m with frame := { m.frame with ip } }
  | sets {changes : List (UInt8 × Value)} (hwritten : ∀ change ∈ changes, change.1 ∈ i.written) :
    Acts config m i (m.setRegisters changes)
  | makes {dst : UInt8} (hdst : dst ∈ i.written) (hop : i.op ∈ Opcode.allocating) (v : Value)
    {heap : Heap Ω} (hgrown : m.heap.Extends heap) :
    Acts config m i { m.setRegister dst v with heap }
  | pushes {src : UInt8} (hi : i = ⟨.push, (src, ())⟩) (v : Value) :
    Acts config m i { m with stack := m.stack.push v }
  | pops {dst : UInt8} (hi : i = ⟨.pop, (dst, ())⟩) (v : Value) (stack : Array Value) :
    Acts config m i { m.setRegister dst v with stack }
  | puts {value container key : UInt8} (hi : i = ⟨.put, (value, container, key, ())⟩) (c : Value)
    (heap : Heap Ω) : Acts config m i { m.setRegister container c with heap }
  | enters (hop : i.op = .call ∨ i.op = .switch) (c : Context) (ip : Nat)
    (journal : Array LogEntry) :
    Acts config m i { m with
      frame := Frame.fresh config c ip
      callers := m.frame :: m.callers
      journal }
  | leaves (hi : i = ⟨.ret, ()⟩) : Acts config m i m.leave

variable [HostData Ω] {env : Env Ω} {m m' : Machine Ω} {i : Instr UInt32}

/-- A product comes behind what is in the heap. -/
theorem extends_make {h heap : Heap Ω} {p : Product} {instruction : String}
    {v : Value} (hmake : p.make env h instruction = .ok (v, heap)) : h.Extends heap := by
  cases p with
  | copy w => exact Heap.extends_deepCopy hmake
  | cast w type => exact Heap.extends_cast hmake
  | handle name =>
    obtain ⟨c, -, heq⟩ := Except.bind_eq_ok.mp hmake
    cases heq
    exact h.extends_addObject (.context c)

/-- Work that succeeds acts in one of the ways.  The cases are the kinds of work. -/
theorem acts_of_works {known : List Value} {w : Work Ω} (hw : Works i known w)
    (hok : w env m = (.ok (), m')) : Acts env.config m i m' := by
  induction hw with
  | ends =>
    cases hok
    exact .goesOn m.frame.ip
  | reads index _ ih =>
    dsimp only [attempt] at hok
    split at hok
    · next v _ => exact ih v hok
    · cases hok
  | sets hwritten =>
    cases hok
    exact .sets hwritten
  | @asks _ dst hdst =>
    obtain ⟨v, rfl⟩ := store_eq_ok hok
    have hwritten : ∀ change ∈ [(dst, v)], change.1 ∈ i.written := by simpa using hdst
    exact .sets hwritten
  | makes hdst _ hop =>
    obtain ⟨v, heap, hmake, rfl⟩ := storeWithHeap_eq_ok hok
    exact .makes hdst hop v (extends_make hmake)
  | pushes hi =>
    obtain ⟨v, -, rfl⟩ := pushRegister_eq_ok hok
    exact .pushes hi v
  | pops hi =>
    obtain ⟨v, -, rest, -, -, rfl⟩ := popRegister_eq_ok hok
    exact .pops hi v rest
  | puts hi =>
    obtain ⟨v, k, -, r, h, -, -, -, -, -, rfl⟩ := putEntry_eq_ok hok
    exact .puts hi (.struct r) (h.insertEntry r k v)
  | @jumps _ target =>
    dsimp only [jump] at hok
    split at hok
    · next ip _ =>
      cases hok
      exact .goesOn ip
    · cases hok

theorem acts_of_exec (hplain : i.op ≠ .extCall) (hexec : m.exec env i = (.ok (), m')) :
    Acts env.config m i m' := by
  cases exec_does (Ω := Ω) i with
  | works h => exact acts_of_works h hexec
  | calls target hi =>
    subst hi
    obtain ⟨c, ip, journal, rfl⟩ := (m.enters_callTarget env.config target).eq_of_ok hexec
    exact .enters (.inl rfl) c ip journal
  | returns hi =>
    subst hi
    cases hexec
    exact .leaves rfl
  | switches handle hi =>
    subst hi
    obtain ⟨c, ip, journal, rfl⟩ := (m.enters_switchContext env.config _ handle).eq_of_ok hexec
    exact .enters (.inr rfl) c ip journal
  | callsHost target hi =>
    subst hi
    exact absurd rfl hplain

end Acts

/-! ## Section 3: What is left alone -/

section Parts

variable {config : Config} {m m' : Machine Ω} {i : Instr UInt32} (h : Acts config m i m')

include h

theorem Acts.registers_size (hframing : i.op ∉ Opcode.framing) :
    m'.frame.registers.size = m.frame.registers.size := by
  cases h with
  | goesOn => rfl
  | sets => exact m.setRegisters_size _
  | makes | pops | puts => exact m.setRegister_size _ _
  | pushes => rfl
  | enters hop => exact absurd (Opcode.mem_framing hop) hframing
  | leaves hi =>
    subst hi
    exact absurd (by decide) hframing

/-- Only the registers that are named are written. -/
theorem Acts.register_eq (hframing : i.op ∉ Opcode.framing) {k : Nat}
    (hk : ∀ reg ∈ i.written, k ≠ reg.toNat) :
    m'.frame.registers[k]? = m.frame.registers[k]? := by
  cases h with
  | goesOn => rfl
  | sets hwritten => exact m.setRegisters_of_ne fun change hchange => hk _ (hwritten change hchange)
  | makes hdst _ v => exact m.setRegister_of_ne v (hk _ hdst)
  | pops hi | puts hi =>
    subst hi
    exact m.setRegister_of_ne _ (hk _ List.mem_cons_self)
  | pushes => rfl
  | enters hop => exact absurd (Opcode.mem_framing hop) hframing
  | leaves hi =>
    subst hi
    exact absurd (by decide) hframing

theorem Acts.frames_eq (hframing : i.op ∉ Opcode.framing) :
    m'.frame.context = m.frame.context ∧ m'.callers = m.callers := by
  cases h with
  | enters hop => exact absurd (Opcode.mem_framing hop) hframing
  | leaves hi =>
    subst hi
    exact absurd (by decide) hframing
  | _ => exact ⟨rfl, rfl⟩

theorem Acts.stack_eq (hpush : i.op ≠ .push) (hpop : i.op ≠ .pop) : m'.stack = m.stack := by
  cases h with
  | pushes hi =>
    subst hi
    exact absurd rfl hpush
  | pops hi =>
    subst hi
    exact absurd rfl hpop
  | leaves => exact m.leave_stack
  | _ => rfl

theorem Acts.status_eq (hret : i.op = .ret → m.callers ≠ []) : m'.status = m.status := by
  cases h with
  | leaves hi =>
    subst hi
    obtain ⟨caller, callers, hcallers⟩ := List.exists_cons_of_ne_nil (hret rfl)
    exact (m.leave_of_cons hcallers).1
  | _ => rfl

theorem Acts.faultSite_eq : m'.faultSite = m.faultSite := by
  cases h with
  | leaves => exact m.leave_faultSite
  | _ => rfl

/-- Structs and objects are added only, unless an entry is put. -/
theorem Acts.grows (hput : i.op ≠ .put) : m.heap.Extends m'.heap := by
  cases h with
  | makes _ _ _ hgrown => exact hgrown
  | puts hi =>
    subst hi
    exact absurd rfl hput
  | leaves =>
    rw [m.leave_heap]
    exact .refl m.heap
  | _ => exact .refl m.heap

theorem Acts.heap_eq (hput : i.op ≠ .put) (halloc : i.op ∉ Opcode.allocating) :
    m'.heap = m.heap := by
  cases h with
  | makes _ hop => exact absurd hop halloc
  | puts hi =>
    subst hi
    exact absurd rfl hput
  | leaves => exact m.leave_heap
  | _ => rfl

end Parts

/-! ## Section 4: What is changed -/

section Changed

variable [HostData Ω] {env : Env Ω} {m m' : Machine Ω}

/-- A fresh frame goes on, and the current one waits. -/
theorem entered_of_exec {i : Instr UInt32} (hop : i.op = .call ∨ i.op = .switch)
    (hexec : m.exec env i = (.ok (), m')) :
    m'.callers = m.frame :: m.callers ∧ ∃ c ip, m'.frame = Frame.fresh env.config c ip := by
  have henters : Enters env.config m (m.exec env i) := by
    obtain ⟨op, args⟩ := i
    rcases hop with hcall | hswitch
    · cases hcall
      exact m.enters_callTarget env.config args.1
    · cases hswitch
      exact m.enters_switchContext env.config _ args.1
  obtain ⟨c, ip, journal, rfl⟩ := henters.eq_of_ok hexec
  exact ⟨rfl, c, ip, rfl⟩

/-- What a `PUT` does: it sets one entry of the struct that the container refers to.  The container
    stays what it is, unless it was a none: then it refers to a struct that is new. -/
def PutsEntry (m m' : Machine Ω) (value container key : UInt8) : Prop :=
  m'.heap.objects = m.heap.objects ∧
  ∃ v k c r h, m.register value = .ok v ∧ m.register key = .ok k ∧
    m.register container = .ok c ∧ m.heap.Opens c r h ∧
    m'.register container = .ok (.struct r) ∧ m'.heap.structs.size = h.structs.size ∧
    (r.index < h.structs.size → Entries.Sets k v (m.heap.entries r) (m'.heap.entries r)) ∧
    ∀ s, s ≠ r → m'.heap.entries s = m.heap.entries s

theorem putsEntry_of_putEntry {instruction : String} {value container key : UInt8}
    (hput : m.putEntry instruction value container key = (.ok (), m')) :
    m.PutsEntry m' value container key := by
  obtain ⟨v, k, c, r, h, hvalue, hkey, hcontainer, hscalar, hopens, rfl⟩ := putEntry_eq_ok hput
  have hregister := register_setRegister _ hcontainer (.struct r)
  exact ⟨hopens.objects_eq, v, k, c, r, h, hvalue, hkey, hcontainer, hopens, hregister,
    h.size_setEntries r _, hopens.sets_insertEntry hscalar v,
    fun s hs => hopens.insertEntry_of_ne k v hs⟩

end Changed

/-! ## Section 5: Footprints -/

/-- What is changed when an instruction leads from the first machine to the second, and what is
    left alone.  The first machine stands behind the instruction. -/
structure Footprint [HostData Ω] (config : Config) (i : Instr UInt32) (m m' : Machine Ω) :
    Prop where
  /-- The registers that are not named stay as they are. -/
  registers : i.op ∉ Opcode.framing →
    m'.frame.registers.size = m.frame.registers.size ∧
    ∀ k : Nat, (∀ reg ∈ i.written, k ≠ reg.toNat) →
      m'.frame.registers[k]? = m.frame.registers[k]?
  moved : ∀ src dst, i = ⟨.move, (src, dst, ())⟩ →
    m'.register dst = m.register src ∧ (src ≠ dst → m'.register src = .ok .none)
  swapped : ∀ a b, i = ⟨.swap, (a, b, ())⟩ →
    m'.register a = m.register b ∧ m'.register b = m.register a
  /-- The stack is changed at its top, by `PUSH` and `POP`. -/
  stack : i.op ≠ .push → i.op ≠ .pop → m'.stack = m.stack
  pushed : ∀ src, i = ⟨.push, (src, ())⟩ →
    ∃ v, m.register src = .ok v ∧ m'.stack = m.stack.push v
  popped : ∀ dst, i = ⟨.pop, (dst, ())⟩ →
    ∃ v, m.stack = m'.stack.push v ∧ m'.register dst = .ok v
  /-- The frames are changed by `CALL`, `SWITCH` and `RET`. -/
  frames : i.op ∉ Opcode.framing →
    m'.frame.context = m.frame.context ∧ m'.callers = m.callers
  entered : i.op = .call ∨ i.op = .switch →
    m'.callers = m.frame :: m.callers ∧ ∃ c ip, m'.frame = Frame.fresh config c ip
  left : i.op = .ret →
    (m.callers = [] ∧ m'.callers = [] ∧ m'.frame = m.frame ∧ m'.status = .halt) ∨
      m.callers = m'.frame :: m'.callers
  status : (i.op = .ret → m.callers ≠ []) → m'.status = m.status
  faultSite : m'.faultSite = m.faultSite
  /-- Structs and objects come behind those that there are, and `PUT` changes one struct. -/
  grows : i.op ≠ .put → m.heap.Extends m'.heap
  heap : i.op ≠ .put → i.op ∉ Opcode.allocating → m'.heap = m.heap
  put : ∀ value container key, i = ⟨.put, (value, container, key, ())⟩ →
    m.PutsEntry m' value container key

theorem footprint_of_exec [HostData Ω] {env : Env Ω} {i : Instr UInt32} {m m' : Machine Ω}
    (hplain : i.op ≠ .extCall) (hexec : m.exec env i = (.ok (), m')) :
    Footprint env.config i m m' := by
  have hacts := acts_of_exec hplain hexec
  exact {
    registers := fun hframing =>
      ⟨hacts.registers_size hframing, fun _ hk => hacts.register_eq hframing hk⟩
    moved := by
      rintro src dst rfl
      exact moved_of_move hexec
    swapped := by
      rintro a b rfl
      exact swapped_of_swap hexec
    stack := hacts.stack_eq
    pushed := by
      rintro src rfl
      obtain ⟨v, hsrc, rfl⟩ := pushRegister_eq_ok hexec
      exact ⟨v, hsrc, rfl⟩
    popped := by
      rintro dst rfl
      obtain ⟨v, w, rest, hdst, hstack, rfl⟩ := popRegister_eq_ok hexec
      exact ⟨v, hstack, register_setRegister _ hdst v⟩
    frames := hacts.frames_eq
    entered := fun hop => entered_of_exec hop hexec
    left := by
      intro hop
      obtain ⟨op, args⟩ := i
      cases hop
      cases hexec
      exact m.left_of_leave
    status := hacts.status_eq
    faultSite := hacts.faultSite_eq
    grows := hacts.grows
    heap := hacts.heap_eq
    put := by
      rintro value container key rfl
      exact putsEntry_of_putEntry hexec }

end Machine

open Machine in
/-- **Instructions change what they name.**  Let a step execute an instruction other than `EXTCALL`
    with success, in whatever machine, and from the machine that stands behind the instruction.

    Of the registers, only those that are named as written are changed: `MOVE` empties a source
    that is not the destination, `SWAP` exchanges its operands, and `PUT` makes a new struct of a
    none.  `PUSH` puts one value on top of the stack and `POP` takes one off.  `CALL` and `SWITCH`
    let the current frame wait for a fresh one, and `RET` resumes the frame that waits.  Structs
    and objects that are there stay as they are, but for one entry of one struct that `PUT` sets.
    But for the journal and the offset of the instruction nothing else is changed, and all this
    holds whichever of its registers are the same. -/
theorem instructions_change_what_they_name {Ω : Type} [HostData Ω] {env : Env Ω}
    {m m' : Machine Ω} {i : Instr UInt32} {next : Nat}
    (hread : Reader.instr m.frame.context.code m.frame.ip = .ok (i, next))
    (hplain : i.op ≠ .extCall) (hstep : m.step env = (.ok (), m')) :
    Footprint env.config i { m with frame := { m.frame with ip := next } } m' := by
  have hend : m.frame.atEnd = false := by
    obtain ⟨hlt, hle⟩ := Reader.lt_of_instr hread
    exact decide_eq_false (by omega)
  obtain ⟨journal, hfetch⟩ := fetch_of_read env hread
  rw [step_of_fetch hend hfetch] at hstep
  -- the offset and the journal, which fetching changes, are in no footprint
  obtain ⟨registers, moved, swapped, stack, pushed, popped, frames, entered, left, status,
    faultSite, grows, heap, put⟩ := footprint_of_exec hplain hstep
  exact ⟨registers, moved, swapped, stack, pushed, popped, frames, entered, left, status,
    faultSite, grows, heap, put⟩

/-- A `PUT` whose value is the container itself: the none is put into the struct that it becomes. -/
theorem none_is_put_into_its_own_struct :
    let i : Instr UInt32 := ⟨.put, (0, 0, 1, ())⟩
    let c : Context := ⟨0, "main", .ofCode i.encode.toArray⟩
    let env : Env Empty := ⟨{}, c, .empty, .empty⟩
    let m : Machine Empty :=
      { Machine.initial env.config c .empty with frame := ⟨c, #[.none, .number 7], 0⟩ }
    ∃ m', m.step env = (.ok (), m') ∧ m'.frame.registers = #[.struct ⟨0⟩, .number 7] ∧
      m'.heap.entries ⟨0⟩ = [(.number 7, .none)] ∧
      Machine.Footprint env.config i { m with frame := { m.frame with ip := 4 } } m' := by
  intro i c env m
  have hread : Reader.instr m.frame.context.code m.frame.ip = .ok (i, 4) := rfl
  obtain ⟨m', hstep, hregisters, hentries⟩ : ∃ m', m.step env = (.ok (), m') ∧
      m'.frame.registers = #[.struct ⟨0⟩, .number 7] ∧
      m'.heap.entries ⟨0⟩ = [(.number 7, .none)] := ⟨_, rfl, rfl, rfl⟩
  exact ⟨m', hstep, hregisters, hentries,
    instructions_change_what_they_name hread (by decide) hstep⟩

end ContractVM
