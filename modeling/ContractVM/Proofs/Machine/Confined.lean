import ContractVM.Machine.Run
import ContractVM.Proofs.Heap.Change
import ContractVM.Proofs.Machine.Works

/-! # How far instructions reach

    Most instructions work on the current frame, the evaluation stack and the heap:

    * **Surroundings** are all the rest of a machine.  A `Confined` operation neither reads
      nor changes them, keeps the frame in its context and its registers in number, and
      respects the limit of the stack.
    * **The other instructions** are four: `CALL`, `RET`, `SWITCH` and `EXTCALL`.
    * **Fetching** and **entering a frame** have few outcomes, too: `Fetches` and `Enters`.

    `exec_reach` tells the instructions apart, so that a property of steps is proved for
    confined operations at once and for the four others one by one. -/

namespace ContractVM

/-- The parts of a machine that most instructions have nothing to do with. -/
structure Surroundings where
  callers : List Frame
  status : Status
  offset : Nat
  faultSite : Option FaultSite
  journal : Array LogEntry

namespace Machine

variable {Ω α : Type}

/-! ## Section 1: Confined operations -/

def surroundings (m : Machine Ω) : Surroundings :=
  ⟨m.callers, m.status, m.offset, m.faultSite, m.journal⟩

/-- The machine with other surroundings. -/
def within (m : Machine Ω) (s : Surroundings) : Machine Ω :=
  { m with
    callers := s.callers
    status := s.status
    offset := s.offset
    faultSite := s.faultSite
    journal := s.journal }

theorem within_surroundings (m : Machine Ω) : m.within m.surroundings = m := rfl

variable [HostData Ω]

/-- The frame is in its context, with as many registers as before and at an offset of its
    code if it was moved; the stack has not grown beyond its limit, and the heap has
    changed by one operation at most. -/
structure Keeps (config : Config) (m m' : Machine Ω) : Prop where
  context : m'.frame.context = m.frame.context
  ip : m'.frame.ip = m.frame.ip ∨ m'.frame.ip ≤ m.frame.context.code.size
  registers : m'.frame.registers.size = m.frame.registers.size
  stack : m'.stack.size ≤ max m.stack.size config.stackSize
  heap : m.heap.Change m'.heap

theorem Keeps.refl (config : Config) (m : Machine Ω) : Keeps config m m :=
  ⟨rfl, .inl rfl, rfl, Nat.le_max_left _ _, .none m.heap⟩

/-- The operation does the same in all surroundings, and leaves them as they are. -/
structure Confined (config : Config) (g : Machine Ω → Outcome Ω α) : Prop where
  within : ∀ m s, g (m.within s) = ((g m).1, (g m).2.within s)
  keeps : ∀ m, Keeps config m (g m).2

variable {config : Config}

theorem Confined.surroundings_eq {g : Machine Ω → Outcome Ω α} (hg : Confined config g)
    (m : Machine Ω) : (g m).2.surroundings = m.surroundings := by
  have hself := hg.within m m.surroundings
  rw [within_surroundings] at hself
  rw [hself]
  rfl

theorem confined_idle (r : Except Fault Unit) : Confined (Ω := Ω) config fun m => (r, m) where
  within _ _ := rfl
  keeps m := .refl config m

theorem keeps_setRegister (m : Machine Ω) (index : UInt8) (v : Value) :
    Keeps config m (m.setRegister index v) :=
  ⟨rfl, .inl rfl, Array.size_setIfInBounds, Nat.le_max_left _ _, .none m.heap⟩

theorem confined_assign (index : UInt8) (v : Value) :
    Confined (Ω := Ω) config fun m => m.assign index v where
  within m s := by
    have hreg : (m.within s).register index = m.register index := rfl
    unfold assign
    rw [hreg]
    split
    · rfl
    · rfl
  keeps m := by
    unfold assign
    split
    · exact m.keeps_setRegister index v
    · exact .refl config m

/-- A result is computed from the frame and the heap, and stored. -/
theorem confined_store (index : UInt8) {f : Machine Ω → Except Fault Value}
    (hf : ∀ m s, f (m.within s) = f m) : Confined config fun m => m.store index (f m) where
  within m s := by
    rw [hf]
    cases f m with
    | error fault => rfl
    | ok v =>
      have hassign : Confined config fun m : Machine Ω => m.assign index v :=
        confined_assign index v
      exact hassign.within m s
  keeps m := by
    cases f m with
    | error fault => exact .refl config m
    | ok v => exact (confined_assign index v).keeps m

/-- A result may come with a changed heap. -/
theorem confined_storeWithHeap (index : UInt8) {f : Machine Ω → Except Fault (Value × Heap Ω)}
    (hf : ∀ m s, f (m.within s) = f m)
    (hheap : ∀ m v heap, f m = .ok (v, heap) → m.heap.Change heap) :
    Confined config fun m => m.storeWithHeap index (f m) where
  within m s := by
    have hreg : (m.within s).register index = m.register index := rfl
    unfold storeWithHeap
    rw [hf, hreg]
    cases f m with
    | error fault => rfl
    | ok result =>
      cases m.register index with
      | error fault => rfl
      | ok old => rfl
  keeps m := by
    unfold storeWithHeap
    cases hresult : f m with
    | error fault => exact .refl config m
    | ok result =>
      cases m.register index with
      | error fault => exact .refl config m
      | ok old =>
        exact ⟨rfl, .inl rfl, Array.size_setIfInBounds, Nat.le_max_left _ _,
          hheap m result.1 result.2 hresult⟩

/-- What goes on with the value in a register is confined if it is for every value. -/
theorem confined_attempt (index : UInt8) {g : Value → Machine Ω → Outcome Ω Unit}
    (hg : ∀ v, Confined config (g v)) :
    Confined config fun m => m.attempt (m.register index) fun v => g v m where
  within m s := by
    have hreg : (m.within s).register index = m.register index := rfl
    unfold attempt
    rw [hreg]
    split
    · next v _ => exact (hg v).within m s
    · rfl
  keeps m := by
    unfold attempt
    split
    · next v _ => exact (hg v).keeps m
    · exact .refl config m

theorem confined_setRegisters (changes : List (UInt8 × Value)) :
    Confined (Ω := Ω) config fun m => (.ok (), m.setRegisters changes) where
  within _ _ := rfl
  keeps m := ⟨rfl, .inl rfl, m.setRegisters_size changes, Nat.le_max_left _ _, .none m.heap⟩

/-! ## Section 2: Single instructions -/

/-- A push stays below the limit of the stack. -/
theorem confined_push (v : Value) : Confined (Ω := Ω) config fun m => m.push config v where
  within m s := by
    have hstack : (m.within s).stack = m.stack := rfl
    unfold push
    rw [hstack]
    split
    · rfl
    · rfl
  keeps m := by
    unfold push
    split
    · next hroom =>
      refine ⟨rfl, .inl rfl, rfl, ?_, .none m.heap⟩
      show (m.stack.push v).size ≤ _
      rw [Array.size_push]
      exact Nat.le_trans hroom (Nat.le_max_right _ _)
    · exact .refl config m

theorem confined_pushRegister (src : UInt8) :
    Confined (Ω := Ω) config fun m => m.pushRegister config src where
  within m s := by
    have hreg : (m.within s).register src = m.register src := rfl
    unfold pushRegister
    rw [hreg]
    split
    · rfl
    · next v _ => exact (confined_push v).within m s
  keeps m := by
    unfold pushRegister
    split
    · exact .refl config m
    · next v _ => exact (confined_push v).keeps m

omit [HostData Ω] in
/-- A pop takes from the stack, if there is anything on it. -/
theorem pop_cases (m : Machine Ω) (instruction : String) :
    (∃ v, m.pop instruction = (.ok v, { m with stack := m.stack.pop })) ∨
      m.pop instruction = (.error (.stackUnderflow instruction), m) := by
  unfold pop
  split
  · next v _ => exact .inl ⟨v, rfl⟩
  · exact .inr rfl

theorem confined_pop (instruction : String) :
    Confined (Ω := Ω) config fun m => m.pop instruction where
  within m s := by
    have hstack : (m.within s).stack = m.stack := rfl
    unfold pop
    rw [hstack]
    split
    · rfl
    · rfl
  keeps m := by
    rcases m.pop_cases instruction with ⟨v, hv⟩ | hempty
    · rw [hv]
      refine ⟨rfl, .inl rfl, rfl, ?_, .none m.heap⟩
      show m.stack.pop.size ≤ _
      rw [Array.size_pop]
      exact Nat.le_trans (Nat.sub_le _ _) (Nat.le_max_left _ _)
    · rw [hempty]
      exact .refl config m

theorem confined_popRegister (instruction : String) (dst : UInt8) :
    Confined (Ω := Ω) config fun m => m.popRegister instruction dst where
  within m s := by
    have hreg : (m.within s).register dst = m.register dst := rfl
    have hpop : Confined config fun m : Machine Ω => m.pop instruction := confined_pop instruction
    unfold popRegister
    rw [hreg, hpop.within m s]
    split
    · rfl
    · rcases m.pop_cases instruction with ⟨v, hv⟩ | hempty
      · rw [hv]
        rfl
      · rw [hempty]
  keeps m := by
    have hpop : Confined config fun m : Machine Ω => m.pop instruction := confined_pop instruction
    have hkeeps := hpop.keeps m
    unfold popRegister
    split
    · exact .refl config m
    · rcases m.pop_cases instruction with ⟨v, hv⟩ | hempty
      · rw [hv] at hkeeps ⊢
        exact ⟨rfl, .inl rfl, Array.size_setIfInBounds, hkeeps.stack, hkeeps.heap⟩
      · rw [hempty]
        exact .refl config m

/-- A jump stays in the code, or at its end. -/
theorem confined_jump (target : UInt32) :
    Confined (Ω := Ω) config fun m => m.jump target where
  within m s := by
    have hcheck : (m.within s).checkTarget target = m.checkTarget target := rfl
    unfold jump
    rw [hcheck]
    split
    · rfl
    · rfl
  keeps m := by
    unfold jump
    split
    · next ip hcheck =>
      refine ⟨rfl, .inr ?_, rfl, Nat.le_max_left _ _, .none m.heap⟩
      unfold checkTarget at hcheck
      split at hcheck
      · next hle =>
        cases hcheck
        exact hle
      · cases hcheck
    · exact .refl config m

theorem confined_putEntry (instruction : String) (value container key : UInt8) :
    Confined (Ω := Ω) config fun m => m.putEntry instruction value container key where
  within m s := by
    have hreg : ∀ index, (m.within s).register index = m.register index := fun _ => rfl
    unfold putEntry
    rw [hreg, hreg, hreg]
    split
    · rfl
    · rfl
  keeps m := by
    unfold putEntry
    split
    · exact .refl config m
    · next v k c _ =>
      exact ⟨rfl, .inl rfl, Array.size_setIfInBounds, Nat.le_max_left _ _,
        .put m.heap c k v instruction⟩

/-! ## Section 3: Fetching and entering -/

section Outcomes

omit [HostData Ω]

/-- The outcomes of fetching at the offset of the machine: the frame goes on behind the
    instruction, or the machine stays, and but for the journal nothing else changes. -/
inductive Fetches (m : Machine Ω) : Outcome Ω (Instr UInt32) → Prop where
  | read {i : Instr UInt32} {next : Nat}
    (hread : Reader.instr m.frame.context.code m.offset = .ok (i, next))
    (journal : Array LogEntry) :
    Fetches m (.ok i, { m with frame := { m.frame with ip := next }, journal })
  | misread {f : CodeFault} (hread : Reader.instr m.frame.context.code m.offset = .error f)
    (journal : Array LogEntry) : Fetches m (.error (.code f), { m with journal })

theorem fetches (env : Env Ω) (m : Machine Ω) : Fetches m (m.fetch env) := by
  unfold fetch
  dsimp only
  split
  · next f hop =>
    have hinstr : Reader.instr m.frame.context.code m.offset = .error f := by
      unfold Reader.instr
      rw [Reader.bind_apply, hop]
    exact .misread hinstr m.journal
  · next op next hop =>
    -- the journal may have a new line from here on
    obtain ⟨journal, hnote⟩ : ∃ journal,
        (if env.config.trace then m.note .debug (m.traceLine op) else m) = { m with journal } := by
      split
      · exact ⟨_, rfl⟩
      · exact ⟨m.journal, rfl⟩
    rw [hnote]
    split
    · next f hargs =>
      have hinstr : Reader.instr m.frame.context.code m.offset = .error f := by
        unfold Reader.instr
        rw [Reader.bind_apply, hop]
        dsimp only
        rw [Reader.bind_apply, hargs]
      exact .misread hinstr journal
    · next args ip hargs =>
      have hinstr : Reader.instr m.frame.context.code m.offset = .ok (⟨op, args⟩, ip) := by
        unfold Reader.instr
        rw [Reader.bind_apply, hop]
        dsimp only
        rw [Reader.bind_apply, hargs]
        rfl
      exact .read hinstr journal

theorem Fetches.status_eq {m : Machine Ω} {o : Outcome Ω (Instr UInt32)} (h : Fetches m o) :
    o.2.status = m.status := by
  cases h with
  | read _ journal => rfl
  | misread _ journal => rfl

/-- What stands at the offset of the frame is fetched. -/
theorem fetch_of_read (env : Env Ω) {m : Machine Ω} {i : Instr UInt32} {next : Nat}
    (hread : Reader.instr m.frame.context.code m.frame.ip = .ok (i, next)) :
    ∃ journal, fetch env { m with offset := m.frame.ip } =
      (.ok i, { m with frame := { m.frame with ip := next }, offset := m.frame.ip, journal }) := by
  have hfetches := fetches env { m with offset := m.frame.ip }
  generalize fetch env { m with offset := m.frame.ip } = o at hfetches ⊢
  cases hfetches with
  | read hread' journal =>
    cases hread.symm.trans hread'
    exact ⟨journal, rfl⟩
  | misread hread' journal => cases hread.symm.trans hread'

/-- What cannot be read at the offset of the frame is a fault. -/
theorem fetch_of_misread (env : Env Ω) {m : Machine Ω} {f : CodeFault}
    (hread : Reader.instr m.frame.context.code m.frame.ip = .error f) :
    ∃ journal, fetch env { m with offset := m.frame.ip } =
      (.error (.code f), { m with offset := m.frame.ip, journal }) := by
  have hfetches := fetches env { m with offset := m.frame.ip }
  generalize fetch env { m with offset := m.frame.ip } = o at hfetches ⊢
  cases hfetches with
  | read hread' journal => cases hread.symm.trans hread'
  | misread hread' journal =>
    cases hread.symm.trans hread'
    exact ⟨journal, rfl⟩

/-- The outcomes of a try to enter a frame: a fresh one goes on and the current one waits,
    or the frames stay as they are. -/
inductive Enters (config : Config) (m : Machine Ω) : Outcome Ω Unit → Prop where
  | entered {c : Context} {ip : Nat} (hdepth : m.depth < config.callDepth)
    (hip : ip ≤ c.code.size) (journal : Array LogEntry) :
    Enters config m (.ok (), { m with
      frame := Frame.fresh config c ip
      callers := m.frame :: m.callers
      journal })
  | refused (f : Fault) (journal : Array LogEntry) :
    Enters config m (.error f, { m with journal })

theorem enters_enter {config : Config} (m : Machine Ω) (journal : Array LogEntry) {c : Context}
    {ip : Nat} (hip : ip ≤ c.code.size) :
    Enters config m (enter config c ip { m with journal }) := by
  unfold enter
  split
  · exact .refused _ journal
  · next hdepth => exact Enters.entered (m := m) (Nat.lt_of_not_le hdepth) hip journal

theorem enters_callTarget (config : Config) (m : Machine Ω) (target : UInt32) :
    Enters config m (m.callTarget config target) := by
  unfold callTarget checkTarget
  split
  · exact .refused _ m.journal
  · next ip hcheck =>
    split at hcheck
    · next hle =>
      cases hcheck
      exact m.enters_enter m.journal hle
    · cases hcheck

theorem enters_switchContext (config : Config) (m : Machine Ω) (instruction : String)
    (handle : UInt8) : Enters config m (m.switchContext config instruction handle) := by
  unfold switchContext
  split
  · exact .refused _ m.journal
  · dsimp only
    split
    · exact .refused _ _
    · exact m.enters_enter _ (Nat.zero_le _)

end Outcomes

end Machine

/-! ## Section 4: All instructions -/

variable {Ω : Type} [HostData Ω] {env : Env Ω} {i : Instr UInt32}

theorem Product.change_make {p : Product} {h heap : Heap Ω} {instruction : String} {v : Value}
    (hmake : p.make env h instruction = .ok (v, heap)) : h.Change heap := by
  cases p with
  | copy w => exact .deepCopy hmake
  | cast w type => exact Heap.change_cast hmake
  | handle name =>
    obtain ⟨c, -, heq⟩ := Except.bind_eq_ok.mp hmake
    cases heq
    exact .newObject h (.context c)

namespace Machine

/-- Work is confined, whatever the instruction.  The cases are the kinds of work. -/
theorem confined_of_works {known : List Value} {w : Work Ω} (hw : Works i known w) (env : Env Ω) :
    Confined env.config (w env) := by
  induction hw with
  | ends => exact confined_idle _
  | reads index _ ih => exact confined_attempt index ih
  | @sets _ changes => exact confined_setRegisters changes
  | @asks _ dst => exact confined_store dst fun _ _ => rfl
  | @makes _ dst =>
    exact confined_storeWithHeap dst (fun _ _ => rfl) fun _ _ _ => Product.change_make
  | @pushes _ src => exact confined_pushRegister src
  | @pops _ dst _ instruction => exact confined_popRegister instruction dst
  | @puts _ value container key _ instruction =>
    exact confined_putEntry instruction value container key
  | @jumps _ target => exact confined_jump target

/-- How far an instruction reaches. -/
inductive Reach (env : Env Ω) (i : Instr UInt32) : Prop where
  | confined (h : Confined env.config fun m => m.exec env i)
  | calls (target : UInt32) (hi : i = ⟨.call, (target, ())⟩)
  | returns (hi : i = ⟨.ret, ()⟩)
  | switches (handle : UInt8) (hi : i = ⟨.switch, (handle, ())⟩)
  | callsHost (target : Target) (hi : i = ⟨.extCall, (target, ())⟩)

/-- Every instruction is confined or one of four. -/
theorem exec_reach (env : Env Ω) (i : Instr UInt32) : Reach env i := by
  cases exec_does (Ω := Ω) i with
  | works h => exact .confined (confined_of_works h env)
  | calls target hi => exact .calls target hi
  | returns hi => exact .returns hi
  | switches handle hi => exact .switches handle hi
  | callsHost target hi => exact .callsHost target hi

end Machine

end ContractVM
