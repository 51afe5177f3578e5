import ContractVM.Command.Execute
import ContractVM.Proofs.Isa.Windows
import ContractVM.Proofs.Machine.Confined
import ContractVM.Proofs.Machine.Interop
import ContractVM.Proofs.Machine.Rows
import ContractVM.Proofs.Machine.Steps

/-! # Values beneath the stack

    A script works at the top of the evaluation stack.  Values that lie beneath those it
    pushes and pops are out of its reach:

    * **Instructions**: all but `PUSH`, `POP` and `EXTCALL` ignore the stack altogether.  The
      first two see its top only, and how much room is left.
    * **Steps** from two machines, one of which has more values beneath its stack, lead to
      machines that differ in these values only, as long as the first machine finds what it
      pops and the second has the room.
    * **Journals** may differ: a machine that traces its instructions notes the height of the
      stack. -/

namespace ContractVM

/-- Does the fault say that the evaluation stack was empty, or full? -/
def Fault.isStackLimit : Fault → Bool
  | .stackUnderflow _ => true
  | .stackOverflow _ => true
  | _ => false

namespace Machine

variable {Ω α : Type}

/-! ## Section 1: Operations that ignore the stack -/

/-- The machine with more values on its stack, beneath its own. -/
def atop (m : Machine Ω) (below : Array Value) : Machine Ω :=
  { m with stack := below ++ m.stack }

/-- The operation does the same whatever is on the stack, and leaves the stack as it is. -/
def IgnoresStack (g : Machine Ω → Outcome Ω α) : Prop :=
  ∀ m stack journal, ∃ journal',
    g { m with stack, journal } = ((g m).1, { (g m).2 with stack, journal := journal' })

theorem IgnoresStack.stack_eq {g : Machine Ω → Outcome Ω α} (hg : IgnoresStack g)
    (m : Machine Ω) : (g m).2.stack = m.stack := by
  obtain ⟨journal, hself⟩ := hg m m.stack m.journal
  exact congrArg (fun o => o.2.stack) hself

theorem ignoresStack_assign (index : UInt8) (v : Value) :
    IgnoresStack fun m : Machine Ω => m.assign index v := by
  intro m stack journal
  have hreg : ({ m with stack, journal } : Machine Ω).register index = m.register index := rfl
  refine ⟨journal, ?_⟩
  dsimp only
  unfold assign
  rw [hreg]
  cases m.register index with
  | error f => rfl
  | ok _ => rfl

/-- What is computed without the stack is stored without the stack. -/
theorem ignoresStack_store (index : UInt8) {f : Machine Ω → Except Fault Value}
    (hf : ∀ m stack journal, f { m with stack, journal } = f m) :
    IgnoresStack fun m => m.store index (f m) := by
  intro m stack journal
  dsimp only
  rw [hf]
  cases f m with
  | error fault => exact ⟨journal, rfl⟩
  | ok v => exact ignoresStack_assign index v m stack journal

theorem ignoresStack_storeWithHeap (index : UInt8)
    {f : Machine Ω → Except Fault (Value × Heap Ω)}
    (hf : ∀ m stack journal, f { m with stack, journal } = f m) :
    IgnoresStack fun m => m.storeWithHeap index (f m) := by
  intro m stack journal
  have hreg : ({ m with stack, journal } : Machine Ω).register index = m.register index := rfl
  refine ⟨journal, ?_⟩
  dsimp only
  unfold storeWithHeap
  rw [hf, hreg]
  cases f m with
  | error fault => rfl
  | ok result =>
    cases m.register index with
    | error fault => rfl
    | ok old => rfl

/-! ## Section 2: Instructions that ignore the stack -/

theorem ignoresStack_jump (target : UInt32) :
    IgnoresStack fun m : Machine Ω => m.jump target := by
  intro m stack journal
  have hcheck : ({ m with stack, journal } : Machine Ω).checkTarget target =
    m.checkTarget target := rfl
  refine ⟨journal, ?_⟩
  dsimp only
  unfold jump
  rw [hcheck]
  cases m.checkTarget target with
  | error f => rfl
  | ok ip => rfl

theorem ignoresStack_enter (config : Config) (c : Context) (ip : Nat) :
    IgnoresStack fun m : Machine Ω => m.enter config c ip := by
  intro m stack journal
  have hdepth : ({ m with stack, journal } : Machine Ω).depth = m.depth := rfl
  refine ⟨journal, ?_⟩
  dsimp only
  unfold enter
  rw [hdepth]
  split
  · rfl
  · rfl

theorem ignoresStack_callTarget (config : Config) (target : UInt32) :
    IgnoresStack fun m : Machine Ω => m.callTarget config target := by
  intro m stack journal
  have hcheck : ({ m with stack, journal } : Machine Ω).checkTarget target =
    m.checkTarget target := rfl
  dsimp only
  unfold callTarget
  rw [hcheck]
  cases m.checkTarget target with
  | error f => exact ⟨journal, rfl⟩
  | ok ip => exact ignoresStack_enter config m.frame.context ip m stack journal

/-- Entering another context is noted, whether it succeeds or not. -/
theorem ignoresStack_switchContext (config : Config) (instruction : String) (handle : UInt8) :
    IgnoresStack fun m : Machine Ω => m.switchContext config instruction handle := by
  intro m stack journal
  have hreg : ({ m with stack, journal } : Machine Ω).register handle = m.register handle := rfl
  dsimp only
  unfold switchContext
  rw [hreg]
  dsimp only
  split
  · exact ⟨journal, rfl⟩
  · next c _ =>
    cases config.checkContext c with
    | error f => exact ⟨_, rfl⟩
    | ok _ =>
      exact ignoresStack_enter config c 0
        (m.note .debug s!"switch {m.frame.context.name} -> {c.name}") stack
        (journal.push ⟨.debug, s!"switch {m.frame.context.name} -> {c.name}"⟩)

theorem ignoresStack_leave :
    IgnoresStack fun m : Machine Ω => ((.ok (), m.leave) : Outcome Ω Unit) := by
  intro m stack journal
  have hcallers : ({ m with stack, journal } : Machine Ω).callers = m.callers := rfl
  dsimp only
  unfold leave
  rw [hcallers]
  cases m.callers with
  | nil => exact ⟨journal, rfl⟩
  | cons caller callers =>
    dsimp only
    split
    · exact ⟨journal, rfl⟩
    · exact ⟨_, rfl⟩

variable [HostData Ω]

theorem ignoresStack_putEntry (instruction : String) (value container key : UInt8) :
    IgnoresStack fun m : Machine Ω => m.putEntry instruction value container key := by
  intro m stack journal
  have hreg : ∀ index, ({ m with stack, journal } : Machine Ω).register index = m.register index :=
    fun _ => rfl
  refine ⟨journal, ?_⟩
  dsimp only
  unfold putEntry
  rw [hreg, hreg, hreg]
  split
  · rfl
  · rfl

/-! ## Section 3: One step -/

/-- The second outcome is the first one with the values beneath the stack. -/
def Lifted (below : Array Value) (o o' : Outcome Ω α) : Prop :=
  ∃ journal, o' = (o.1, { o.2.atop below with journal })

/-- Is the machine about to execute an `EXTCALL`? -/
def AtExtCall (m : Machine Ω) : Prop :=
  m.status = .running ∧ ∃ target next,
    Reader.instr m.frame.context.code m.frame.ip = .ok (⟨.extCall, (target, ())⟩, next)

section Step

variable {env : Env Ω} {below : Array Value}

omit [HostData Ω] in
theorem IgnoresStack.lifted {g : Machine Ω → Outcome Ω α} (hg : IgnoresStack g) (m : Machine Ω)
    (journal : Array LogEntry) : Lifted below (g m) (g { m.atop below with journal }) := by
  obtain ⟨journal', heq⟩ := hg m (below ++ m.stack) journal
  refine ⟨journal', heq.trans ?_⟩
  unfold atop
  rw [hg.stack_eq]

section Top

omit [HostData Ω]

/-- Below the limit of the stack, a value is pushed. -/
theorem push_of_lt {config : Config} (m : Machine Ω) (v : Value)
    (h : m.stack.size < config.stackSize) :
    m.push config v = (.ok (), { m with stack := m.stack.push v }) :=
  if_pos h

/-- At the limit it is not. -/
theorem push_of_le {config : Config} (m : Machine Ω) (v : Value)
    (h : config.stackSize ≤ m.stack.size) :
    m.push config v = (.error (.stackOverflow config.stackSize), m) :=
  if_neg (Nat.not_lt.mpr h)

/-- The top value is popped. -/
theorem pop_of_back? (m : Machine Ω) (instruction : String) {v : Value}
    (h : m.stack.back? = some v) :
    m.pop instruction = (.ok v, { m with stack := m.stack.pop }) := by
  unfold pop
  rw [h]

theorem pop_of_empty (m : Machine Ω) (instruction : String) (h : m.stack.back? = none) :
    m.pop instruction = (.error (.stackUnderflow instruction), m) := by
  unfold pop
  rw [h]

/-- A push needs room for one more value, which there is over the values beneath, too. -/
theorem lifted_push {config : Config} (m : Machine Ω) (v : Value) (journal : Array LogEntry)
    (hroom : below.size + (m.push config v).2.stack.size ≤ config.stackSize)
    (hfree : ∀ f, (m.push config v).1 = .error f → f.isStackLimit = false) :
    Lifted below (m.push config v) (push config v { m.atop below with journal }) := by
  by_cases hfits : m.stack.size < config.stackSize
  · have hfits' : (below ++ m.stack).size < config.stackSize := by
      rw [push_of_lt m v hfits, Array.size_push] at hroom
      rw [Array.size_append]
      omega
    rw [push_of_lt m v hfits, push_of_lt { m.atop below with journal } v hfits']
    refine ⟨journal, ?_⟩
    unfold atop
    rw [Array.append_push]
  · rw [push_of_le m v (Nat.not_lt.mp hfits)] at hfree
    cases hfree _ rfl

/-- A pop takes the top value, which is the same over the values beneath. -/
theorem lifted_pop (m : Machine Ω) (instruction : String) (journal : Array LogEntry)
    (hfree : ∀ f, (m.pop instruction).1 = .error f → f.isStackLimit = false) :
    Lifted below (m.pop instruction) (pop instruction { m.atop below with journal }) := by
  cases htop : m.stack.back? with
  | none =>
    rw [pop_of_empty m instruction htop] at hfree
    cases hfree _ rfl
  | some v =>
    have htop' : (below ++ m.stack).back? = some v := by
      rw [Array.back?_append, htop]
      rfl
    have hnonempty : m.stack.isEmpty = false := by
      cases hempty : m.stack.isEmpty with
      | false => rfl
      | true =>
        rw [Array.isEmpty_iff.mp hempty] at htop
        cases htop
    rw [pop_of_back? m instruction htop,
      pop_of_back? { m.atop below with journal } instruction htop']
    refine ⟨journal, ?_⟩
    unfold atop
    rw [Array.pop_append, hnonempty, if_neg Bool.false_ne_true]

theorem lifted_pushRegister {config : Config} (m : Machine Ω) (src : UInt8)
    (journal : Array LogEntry)
    (hroom : below.size + (m.pushRegister config src).2.stack.size ≤ config.stackSize)
    (hfree : ∀ f, (m.pushRegister config src).1 = .error f → f.isStackLimit = false) :
    Lifted below (m.pushRegister config src)
      (pushRegister config { m.atop below with journal } src) := by
  have hreg : ({ m.atop below with journal } : Machine Ω).register src = m.register src := rfl
  unfold pushRegister at hroom hfree ⊢
  rw [hreg]
  cases hread : m.register src with
  | error f => exact ⟨journal, rfl⟩
  | ok v =>
    rw [hread] at hroom hfree
    exact m.lifted_push v journal hroom hfree

theorem lifted_popRegister (m : Machine Ω) (instruction : String) (dst : UInt8)
    (journal : Array LogEntry)
    (hfree : ∀ f, (m.popRegister instruction dst).1 = .error f → f.isStackLimit = false) :
    Lifted below (m.popRegister instruction dst)
      (popRegister { m.atop below with journal } instruction dst) := by
  have hreg : ({ m.atop below with journal } : Machine Ω).register dst = m.register dst := rfl
  unfold popRegister at hfree ⊢
  rw [hreg]
  cases hread : m.register dst with
  | error f => exact ⟨journal, rfl⟩
  | ok _ =>
    rw [hread] at hfree
    have hfree' : ∀ f, (m.pop instruction).1 = .error f → f.isStackLimit = false := by
      rcases m.pop_cases instruction with ⟨v, hpop⟩ | hpop
      · rw [hpop]
        exact fun _ hf => nomatch hf
      · rw [hpop] at hfree ⊢
        rintro f ⟨⟩
        exact hfree _ rfl
    obtain ⟨journal', heq⟩ : Lifted below (m.pop instruction)
        (pop instruction { m.atop below with journal }) := m.lifted_pop instruction journal hfree'
    refine ⟨journal', ?_⟩
    dsimp only
    rw [heq]
    rcases m.pop_cases instruction with ⟨v, hpop⟩ | hpop
    · rw [hpop]
      rfl
    · rw [hpop]

end Top

/-- Work does not see what lies beneath.  The cases are the kinds of work. -/
theorem lifted_of_works {i : Instr UInt32} {known : List Value} {w : Work Ω}
    (hw : Works i known w) (m : Machine Ω) (journal : Array LogEntry)
    (hroom : below.size + (w env m).2.stack.size ≤ env.config.stackSize)
    (hfree : ∀ f, (w env m).1 = .error f → f.isStackLimit = false) :
    Lifted below (w env m) (w env { m.atop below with journal }) := by
  induction hw with
  | ends => exact ⟨journal, rfl⟩
  | reads index _ ih =>
    have hreg : ({ m.atop below with journal } : Machine Ω).register index = m.register index := rfl
    dsimp only at hroom hfree ⊢
    rw [hreg]
    cases hread : m.register index with
    | error f => exact ⟨journal, rfl⟩
    | ok v =>
      rw [hread] at hroom hfree
      exact ih v hroom hfree
  | sets => exact ⟨journal, rfl⟩
  | @asks _ dst _ q instruction =>
    have hstore : IgnoresStack fun m : Machine Ω => m.store dst (q.answer m.heap instruction) :=
      ignoresStack_store dst fun _ _ _ => rfl
    exact hstore.lifted m journal
  | @makes _ dst _ p _ _ instruction =>
    have hstore : IgnoresStack fun m : Machine Ω =>
        m.storeWithHeap dst (p.make env m.heap instruction) :=
      ignoresStack_storeWithHeap dst fun _ _ _ => rfl
    exact hstore.lifted m journal
  | @pushes _ src => exact m.lifted_pushRegister src journal hroom hfree
  | @pops _ dst _ instruction => exact m.lifted_popRegister instruction dst journal hfree
  | @puts _ value container key _ instruction =>
    exact (ignoresStack_putEntry instruction value container key).lifted m journal
  | @jumps _ target => exact (ignoresStack_jump target).lifted m journal

/-- An instruction that calls no host function does not see what lies beneath. -/
theorem lifted_exec (m : Machine Ω) {i : Instr UInt32}
    (hplain : ∀ target, i ≠ ⟨.extCall, (target, ())⟩) (journal : Array LogEntry)
    (hroom : below.size + (m.exec env i).2.stack.size ≤ env.config.stackSize)
    (hfree : ∀ f, (m.exec env i).1 = .error f → f.isStackLimit = false) :
    Lifted below (m.exec env i) (exec env { m.atop below with journal } i) := by
  cases exec_does (Ω := Ω) i with
  | works h => exact lifted_of_works h m journal hroom hfree
  | calls target hi =>
    subst hi
    exact (ignoresStack_callTarget env.config target).lifted m journal
  | returns hi =>
    subst hi
    exact ignoresStack_leave.lifted m journal
  | switches handle hi =>
    subst hi
    exact (ignoresStack_switchContext env.config _ handle).lifted m journal
  | callsHost target hi => exact absurd hi (hplain target)

/-- A step that calls no host function is taken alike over other values beneath. -/
theorem lifted_step (m : Machine Ω) (hrun : m.status = .running) (hplain : ¬m.AtExtCall)
    (journal : Array LogEntry)
    (hroom : below.size + (m.step env).2.stack.size ≤ env.config.stackSize)
    (hfree : ∀ f, (m.step env).1 = .error f → f.isStackLimit = false) :
    Lifted below (m.step env) (step env { m.atop below with journal }) := by
  let m' : Machine Ω := { m.atop below with journal }
  cases hend : m.frame.atEnd with
  | true =>
    have hsize := of_decide_eq_true hend
    rw [m.step_of_atEnd hsize, m'.step_of_atEnd hsize]
    exact ignoresStack_leave.lifted m journal
  | false =>
    have hend' : m'.frame.atEnd = false := hend
    cases hread : Reader.instr m.frame.context.code m.frame.ip with
    | error f =>
      have hread' : Reader.instr m'.frame.context.code m'.frame.ip = .error f := hread
      obtain ⟨journal₁, hfetch⟩ := fetch_of_misread env hread
      obtain ⟨journal₂, hfetch'⟩ := fetch_of_misread env hread'
      rw [step_of_fetch_error hend hfetch, step_of_fetch_error hend' hfetch']
      exact ⟨journal₂, rfl⟩
    | ok read =>
      obtain ⟨i, next⟩ := read
      have hread' : Reader.instr m'.frame.context.code m'.frame.ip = .ok (i, next) := hread
      obtain ⟨journal₁, hfetch⟩ := fetch_of_read env hread
      obtain ⟨journal₂, hfetch'⟩ := fetch_of_read env hread'
      have hinstr : ∀ target, i ≠ ⟨.extCall, (target, ())⟩ := by
        rintro target rfl
        exact hplain ⟨hrun, target, next, hread⟩
      rw [step_of_fetch hend hfetch] at hroom hfree ⊢
      rw [step_of_fetch hend' hfetch']
      -- the journals differ in the line of the trace at most
      exact lifted_exec _ hinstr journal₂ hroom hfree

/-! ## Section 4: Many steps -/

/-- During `n` steps no `EXTCALL` is executed, and the stack has always room for so many values
    more. -/
structure LeavesRoom (env : Env Ω) (room n : Nat) (m : Machine Ω) : Prop where
  fits : ∀ k ≤ n, room + (m.advance env k).2.stack.size ≤ env.config.stackSize
  alone : ∀ k < n, ∀ m', m.advance env k = (.ok (), m') → ¬m'.AtExtCall

theorem LeavesRoom.mono {room n k : Nat} {m : Machine Ω} (h : m.LeavesRoom env room n)
    (hle : k ≤ n) : m.LeavesRoom env room k where
  fits j hj := h.fits j (Nat.le_trans hj hle)
  alone j hj := h.alone j (Nat.lt_of_lt_of_le hj hle)

/-- The step behind a row is taken alike, if there is room behind it. -/
theorem LeavesRoom.lifted {n k : Nat} {m m₁ : Machine Ω} (h : m.LeavesRoom env below.size n)
    (hk : k < n) (hrow : StaysAbove 0 m (List.replicate k env) m₁) (hrun : m₁.status = .running)
    (journal : Array LogEntry) (hfree : ∀ f, (m₁.step env).1 = .error f → f.isStackLimit = false) :
    Lifted below (m₁.step env) (step env { m₁.atop below with journal }) := by
  have hfits := h.fits (k + 1) hk
  have hplain := h.alone k hk m₁ (advance_of_row hrow 0)
  refine lifted_step m₁ hrun hplain journal ?_ hfree
  rw [advance_of_row hrow 1, advance, if_pos hrun] at hfits
  cases hstep : m₁.step env with
  | mk r m₂ =>
    rw [hstep] at hfits
    cases r with
    | error f => exact hfits
    | ok _ => exact hfits

/-- Rows of steps are taken alike over other values beneath. -/
theorem StaysAbove.lifted {n k : Nat} {m m₁ : Machine Ω} (hroom : m.LeavesRoom env below.size n)
    (hk : k ≤ n) (hrow : StaysAbove 0 m (List.replicate k env) m₁) (journal : Array LogEntry) :
    ∃ journal', StaysAbove 0 { m.atop below with journal } (List.replicate k env)
      { m₁.atop below with journal := journal' } := by
  induction k generalizing m₁ with
  | zero =>
    cases hrow
    exact ⟨journal, .refl⟩
  | succ k ih =>
    cases hrow with
    | tail hrow hrun hstep _ =>
      obtain ⟨journal₁, hrow'⟩ := ih (Nat.le_of_succ_le hk) hrow
      obtain ⟨journal₂, hstep'⟩ := hroom.lifted hk hrow hrun journal₁ (by
        rw [hstep]
        exact fun f hf => nomatch hf)
      rw [hstep] at hstep'
      exact ⟨journal₂, hrow'.tail hrun hstep' (Nat.zero_le _)⟩

/-- A run whose steps are taken alike ends alike. -/
theorem EndsAfter.lifted {n k : Nat} {m : Machine Ω} {o : Outcome Ω Unit}
    (hroom : m.LeavesRoom env below.size n) (hk : k < n)
    (h : EndsAfter env (fun _ => env.interops) m k o)
    (hfree : ∀ f, o.1 = .error f → f.isStackLimit = false) (journal : Array LogEntry) :
    ∃ o', EndsAfter env (fun _ => env.interops) { m.atop below with journal } k o' ∧
      Lifted below o o' := by
  cases h with
  | @halts m₁ hrow hhalt =>
    rw [env.map_upTo_same] at hrow
    obtain ⟨journal', hrow'⟩ := hrow.lifted hroom (Nat.le_of_lt hk) journal
    rw [← env.map_upTo_same] at hrow'
    exact ⟨_, .halts hrow' hhalt, journal', rfl⟩
  | @faults m₁ m₂ f hrow hrun hstep =>
    rw [env.map_upTo_same] at hrow
    have hstep₁ : m₁.step env = (.error f, m₂) := hstep
    obtain ⟨journal₁, hrow'⟩ := hrow.lifted hroom (Nat.le_of_lt hk) journal
    obtain ⟨journal₂, hstep'⟩ := hroom.lifted hk hrow hrun journal₁ (by
      rw [hstep₁]
      exact hfree)
    rw [hstep₁] at hstep'
    rw [← env.map_upTo_same] at hrow'
    exact ⟨_, .faults hrow' hrun hstep', journal₂, rfl⟩

/-- Any number of steps is taken alike over other values beneath. -/
theorem lifted_advance (n : Nat) (m : Machine Ω) (journal : Array LogEntry)
    (hroom : m.LeavesRoom env below.size n)
    (hfree : ∀ f, (m.advance env n).1 = .error f → f.isStackLimit = false) :
    Lifted below (m.advance env n) (advance env n { m.atop below with journal }) := by
  rcases row_or_endsAfter env (fun _ => env.interops) m n with ⟨m₁, hrow⟩ | ⟨k, hk, o, hends⟩
  · rw [env.map_upTo_same] at hrow
    obtain ⟨journal', hrow'⟩ := hrow.lifted hroom (Nat.le_refl n) journal
    have hn : m.advance env n = (.ok (), m₁) := advance_of_row hrow 0
    have hn' : advance env n { m.atop below with journal } = _ := advance_of_row hrow' 0
    rw [hn, hn']
    exact ⟨journal', rfl⟩
  · rw [hends.advance_eq hk] at hfree ⊢
    obtain ⟨o', hends', hlifted⟩ := hends.lifted hroom hk hfree journal
    rw [hends'.advance_eq hk]
    exact hlifted

/-! ## Section 5: Runs -/

omit [HostData Ω] in
/-- The end of a run does not depend on the stack. -/
theorem lifted_finish {o o' : Outcome Ω Unit} (h : Lifted below o o') :
    Lifted below (finish o) (finish o') := by
  obtain ⟨journal, rfl⟩ := h
  obtain ⟨r, m⟩ := o
  cases r with
  | ok _ => exact ⟨journal, rfl⟩
  | error f => exact ⟨_, rfl⟩

/-- A run ends alike over other values beneath. -/
theorem lifted_run {fuel : Nat} {m : Machine Ω} {o : Outcome Ω Unit}
    (hrun : m.run env fuel = some o) (hroom : m.LeavesRoom env below.size fuel)
    (hfree : ∀ f, o.1 = .error f → f.isStackLimit = false) :
    ∃ o', (m.atop below).run env fuel = some o' ∧ Lifted below o o' := by
  have hcheck : (m.atop below).checkStart env = m.checkStart env := rfl
  unfold run at hrun ⊢
  rw [hcheck]
  cases hstart : m.checkStart env with
  | error f =>
    rw [hstart] at hrun
    cases hrun
    exact ⟨_, rfl, lifted_finish ⟨m.journal, rfl⟩⟩
  | ok _ =>
    rw [hstart] at hrun
    obtain ⟨⟨r, m'⟩, hsteps, rfl⟩ := Option.map_eq_some_iff.mp hrun
    obtain ⟨n, hn, hends⟩ := steps_eq_some_iff.mp hsteps
    have hresult : (finish (r, m')).1 = r := by
      cases r with
      | ok _ => rfl
      | error f => rfl
    rw [hresult] at hfree
    obtain ⟨o', hends', hlifted⟩ := hends.lifted hroom hn hfree m.journal
    have hsteps' : steps env fuel (m.atop below) = some o' := steps_eq_some_iff.mpr ⟨n, hn, hends'⟩
    refine ⟨finish o', ?_, lifted_finish hlifted⟩
    dsimp only
    rw [hsteps']
    rfl

/-- So does a run from its request on. -/
theorem lifted_runFrom {fuel : Nat} {method : Option String} {m : Machine Ω}
    {o : Outcome Ω Unit} (hrun : m.runFrom env fuel method = some o)
    (hroom : ∀ offset, env.entryOffset? method = some offset →
      (m.start env offset).LeavesRoom env below.size fuel)
    (hfree : ∀ f, o.1 = .error f → f.isStackLimit = false) :
    ∃ o', (m.atop below).runFrom env fuel method = some o' ∧ Lifted below o o' := by
  have hrequests := m.requests env method
  unfold runFrom at hrun ⊢
  generalize m.requestRun env method = request at hrequests hrun
  cases hrequests with
  | nested hbusy =>
    cases hrun
    have hbusy' : (m.atop below).status = .running := hbusy
    rw [requestRun_of_running hbusy']
    exact ⟨_, rfl, m.journal, rfl⟩
  | @starts offset hidle hentry =>
    have hidle' : (m.atop below).status ≠ .running := hidle
    rw [requestRun_of_entry hidle' hentry]
    have hrun' : (m.start env offset).run env fuel = some o := hrun
    exact lifted_run hrun' (hroom offset hentry) hfree
  | @unknown name hidle hmethod hentry journal =>
    cases hrun
    subst hmethod
    have hidle' : (m.atop below).status ≠ .running := hidle
    obtain ⟨journal', hrequest⟩ := requestRun_of_unknown hidle' hentry
    rw [hrequest]
    exact ⟨_, rfl, journal', rfl⟩

end Step

end Machine

/-- **Values beneath the stack are out of reach.** Take a machine, before a run or anywhere in
    the middle of one, and any number of its steps in which no `EXTCALL` is executed.  Put any
    values beneath its stack for which there is always room, although the steps push more.

    Unless the steps of the first machine end with an underflow or an overflow of its stack, the
    same number of steps of the second has the same result, and leaves it in the same state:
    with the same frames and registers, the same heap, and the same stack on top of the values
    beneath, which nothing has touched.  A whole run ends alike, too, at the same fault site if
    with a fault.  The journals alone may differ, as a trace shows the height of the stack. -/
theorem values_beneath_are_out_of_reach {Ω : Type} [HostData Ω] (env : Env Ω)
    (below : Array Value) (m : Machine Ω) :
    (∀ n r m', m.advance env n = (r, m') → m.LeavesRoom env below.size n →
      (∀ f, r = .error f → f.isStackLimit = false) →
        ∃ journal, (m.atop below).advance env n = (r, { m'.atop below with journal })) ∧
    ∀ fuel method r m', m.runFrom env fuel method = some (r, m') →
      (∀ offset, env.entryOffset? method = some offset →
        (m.start env offset).LeavesRoom env below.size fuel) →
      (∀ f, r = .error f → f.isStackLimit = false) →
        ∃ journal, (m.atop below).runFrom env fuel method =
          some (r, { m'.atop below with journal }) := by
  constructor
  · intro n r m' hsteps hroom hfree
    have hfree' : ∀ f, (m.advance env n).1 = .error f → f.isStackLimit = false := by
      rw [hsteps]
      exact hfree
    have hlifted : Machine.Lifted below (m.advance env n) ((m.atop below).advance env n) :=
      Machine.lifted_advance n m m.journal hroom hfree'
    rw [hsteps] at hlifted
    exact hlifted
  · intro fuel method r m' hrun hroom hfree
    obtain ⟨o', hrun', journal, rfl⟩ := Machine.lifted_runFrom hrun hroom hfree
    exact ⟨journal, hrun'⟩

/-- A called frame pops what its caller has pushed, over a value that neither of them knows of,
    on a stack with room for just two. -/
theorem callee_pops_over_hidden_value :
    let code : List (Instr UInt32) :=
      [⟨.load, (0, .number 7, ())⟩, ⟨.push, (0, ())⟩, ⟨.call, (20, ())⟩, ⟨.ret, ()⟩,
        ⟨.pop, (1, ())⟩]
    let main : Context := ⟨0, "main", .ofCode (code.flatMap Instr.encode).toArray⟩
    let env : Env Empty := ⟨{ stackSize := 2 }, main, .empty, .empty⟩
    let m : Machine Empty := .initial env.config main .empty
    let below : Array Value := #[.bool true]
    (∃ m' journal, (m.start env 0).advance env 4 = (.ok (), m') ∧
      ((m.start env 0).atop below).advance env 4 = (.ok (), { m'.atop below with journal }) ∧
      m'.stack = #[] ∧ m'.frame.registers[1]? = some (.number 7)) ∧
    ∃ m' journal, m.execute env 7 = some (.ok (), m') ∧
      (m.atop below).execute env 7 = some (.ok (), { m'.atop below with journal }) := by
  intro code main env m below
  have hplain : ∀ k < 7, ((Reader.instr ((m.start env 0).advance env k).2.frame.context.code
      ((m.start env 0).advance env k).2.frame.ip).toOption.map fun read => read.1.op) ≠
        some .extCall := by
    decide +kernel
  have hroom : (m.start env 0).LeavesRoom env below.size 7 := by
    refine ⟨by decide +kernel, ?_⟩
    rintro k hk m' hsteps ⟨-, target, next, hread⟩
    apply hplain k hk
    rw [hsteps, hread]
    rfl
  have hfree : ∀ f, (.ok () : Except Fault Unit) = .error f → f.isStackLimit = false :=
    fun f hf => nomatch hf
  have hok : ∀ o : Outcome Empty Unit, o.1.isOk = true → o = (.ok (), o.2) := by
    rintro ⟨r, m⟩ h
    cases r with
    | ok _ => rfl
    | error f => cases h
  constructor
  · have hsteps := hok ((m.start env 0).advance env 4) (by decide +kernel)
    obtain ⟨journal, hlifted⟩ := (values_beneath_are_out_of_reach env below (m.start env 0)).1 4 _ _
      hsteps (hroom.mono (by decide)) hfree
    exact ⟨_, journal, hsteps, hlifted, by decide +kernel, by decide +kernel⟩
  · have hvalue : (m.execute env 7).map (fun o => o.1.isOk) = some true := by decide +kernel
    obtain ⟨o, hrun, ho⟩ := Option.map_eq_some_iff.mp hvalue
    rw [hok o ho] at hrun
    obtain ⟨journal, hlifted⟩ := (values_beneath_are_out_of_reach env below m).2 7 none _ _ hrun
      (by rintro offset ⟨⟩; exact hroom) hfree
    exact ⟨_, journal, hrun, hlifted⟩

end ContractVM
