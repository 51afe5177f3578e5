import ContractVM.Command.Execute
import ContractVM.Proofs.Heap.FirstPaths
import ContractVM.Proofs.Machine.Session
import ContractVM.Proofs.Machine.Settled

/-! # Faulting instructions change nothing

    An instruction that cannot be decoded or executed leaves the machine as it was, but for
    the offset of the frame and the journal:

    * **`PUT`** makes a struct of a none before it looks at the value.  If too many structs are
      nested behind the value, then the new struct stays where the none was.
    * **Nothing else** can be wrong with the value of such a `PUT`, for nothing leads back to a
      struct that is new.  This needs a machine without dangling references, which every
      session has whose host hands over none. -/

namespace ContractVM

variable {Ω : Type}

namespace Machine

/-! ## Section 1: Machines that are as before -/

/-- The machines have the same stack, the same frames with the same registers, and the same
    heap.  The offset of the current frame may differ. -/
structure Untouched (m m' : Machine Ω) : Prop where
  stack : m'.stack = m.stack
  context : m'.frame.context = m.frame.context
  registers : m'.frame.registers = m.frame.registers
  callers : m'.callers = m.callers
  heap : m'.heap = m.heap

/-- The machine with a new empty struct in a register. -/
def withNewStruct (m : Machine Ω) (index : UInt8) : Machine Ω :=
  { m.setRegister index m.heap.newStruct.1 with heap := m.heap.newStruct.2 }

/-- What `PUT` finds if it is to put a value that is nested too deep into a none: the key is a
    scalar, and with the new struct more than `maxNesting` structs would be nested. -/
structure PutsTooDeep (m : Machine Ω) (value container key : UInt8) : Prop where
  container : m.register container = .ok .none
  key : ∃ k, m.register key = .ok k ∧ k.isScalar = true
  value : ∃ v, m.register value = .ok v ∧ m.heap.NestsBeyond (maxNesting - 1) v

variable {m : Machine Ω}

/-- A value that is written where it stands already changes nothing. -/
theorem setRegister_of_register {index : UInt8} {v : Value} (hv : m.register index = .ok v) :
    m.setRegister index v = m := by
  have hsame : m.frame.registers.setIfInBounds index.toNat v = m.frame.registers := by
    apply Array.ext_getElem?
    intro k
    rw [Array.getElem?_setIfInBounds]
    split
    · next heq =>
      subst heq
      rw [m.register_eq_ok.mp hv]
      split
      · rfl
      · next hout =>
        have hread := m.register_eq_ok.mp hv
        rw [Array.getElem?_eq_none (Nat.not_lt.mp hout)] at hread
        exact hread
    · rfl
  unfold setRegister
  rw [hsame]

/-! ## Section 2: `PUT` -/

variable [HostData Ω]

/-- `PUT` reads its three registers before anything else. -/
theorem putEntry_eq (m : Machine Ω) (instruction : String) (value container key : UInt8) :
    (∃ f, m.putEntry instruction value container key = (.error f, m)) ∨
    ∃ v k c, m.register value = .ok v ∧ m.register key = .ok k ∧ m.register container = .ok c ∧
      m.putEntry instruction value container key =
        ((m.heap.put c k v instruction).result,
          { m.setRegister container (m.heap.put c k v instruction).container with
            heap := (m.heap.put c k v instruction).heap }) := by
  unfold putEntry
  cases hv : m.register value with
  | error f => exact .inl ⟨f, rfl⟩
  | ok v =>
    cases hk : m.register key with
    | error f => exact .inl ⟨f, rfl⟩
    | ok k =>
      cases hc : m.register container with
      | error f => exact .inl ⟨f, rfl⟩
      | ok c => exact .inr ⟨v, k, c, rfl, rfl, rfl, rfl⟩

theorem Closed.putEntry (h : m.Closed) (instruction : String) (value container key : UInt8) :
    (m.putEntry instruction value container key).2.Closed := by
  rcases m.putEntry_eq instruction value container key with ⟨f, heq⟩ | ⟨v, k, c, hv, -, hc, heq⟩
  · rw [heq]
    exact h
  · rw [heq]
    obtain ⟨honto, hlives⟩ := h.heap.put instruction (h.register hc) (h.register hv)
    exact (h.grow honto).setRegister container hlives

/-- The none becomes a struct, though the value is refused. -/
theorem Closed.putEntry_of_putsTooDeep (h : m.Closed) {value container key : UInt8}
    (hdeep : m.PutsTooDeep value container key) (instruction : String) :
    m.putEntry instruction value container key =
      (.error (.outOfRange instruction .nesting), m.withNewStruct container) := by
  obtain ⟨hcontainer, ⟨k, hkey, hscalar⟩, ⟨v, hvalue, hnests⟩⟩ := hdeep
  unfold Machine.putEntry
  rw [hvalue, hkey, hcontainer]
  show ((m.heap.put .none k v instruction).result, _) = _
  rw [h.heap.put_of_nestsBeyond hscalar (h.register hvalue) hnests]
  rfl

/-- Otherwise a `PUT` that faults has changed nothing. -/
theorem Closed.putEntry_error (h : m.Closed) {instruction : String} {value container key : UInt8}
    {f : Fault} (hfault : (m.putEntry instruction value container key).1 = .error f) :
    (m.putEntry instruction value container key).2 = m ∨ m.PutsTooDeep value container key := by
  rcases m.putEntry_eq instruction value container key with ⟨f, heq⟩ | ⟨v, k, c, hv, hk, hc, heq⟩
  · rw [heq]
    exact .inl rfl
  · rw [heq] at hfault ⊢
    rcases h.heap.put_error (h.register hv) hfault with ⟨hcontainer, hheap⟩ | ⟨rfl, hkey, hdeep⟩
    · left
      dsimp only
      rw [hcontainer, hheap, setRegister_of_register hc]
    · exact .inr ⟨hc, ⟨k, hk, hkey⟩, v, hv, hdeep⟩

/-- No instruction that calls no host function makes a reference up. -/
theorem Closed.exec (h : m.Closed) (env : Env Ω) {i : Instr UInt32} (hplain : i.op ≠ .extCall) :
    (m.exec env i).2.Closed := by
  by_cases hput : i.op = .put
  · obtain ⟨op, args⟩ := i
    cases hput
    obtain ⟨value, container, key, ⟨⟩⟩ := args
    exact h.putEntry _ value container key
  · exact (m.exec_settled i hput hplain).closed h

end Machine

/-! ## Section 3: Sessions without dangling references -/

/-- Do the values that a host hands over live in the heap? -/
def HostAction.LivesIn (h : Heap Ω) : HostAction Ω → Prop
  | .push v => v.LivesIn h
  | .put container key value _ => container.LivesIn h ∧ key.LivesIn h ∧ value.LivesIn h
  | .insert r key value => (Value.struct r).LivesIn h ∧ key.LivesIn h ∧ value.LivesIn h
  | .deepCopy v _ => v.LivesIn h
  | .cast v _ _ => v.LivesIn h
  | _ => True

namespace Machine

variable {m : Machine Ω}

theorem Closed.requestRun (h : m.Closed) (env : Env Ω) (method : Option String) :
    (m.requestRun env method).2.Closed := by
  have hrequests := m.requests env method
  generalize m.requestRun env method = o at hrequests ⊢
  cases hrequests with
  | nested _ => exact h
  | @starts entry _ _ =>
    exact ⟨h.stack, Frame.livesIn_fresh env.config env.entry entry m.heap,
      fun _ hf => absurd hf List.not_mem_nil, h.heap⟩
  | unknown _ _ _ _ => exact h.of_eq rfl rfl rfl rfl

/-- The end of a run drops frames at most. -/
theorem Closed.finish {o : Outcome Ω Unit} (h : o.2.Closed) : (Machine.finish o).2.Closed := by
  obtain ⟨r, m⟩ := o
  cases r with
  | ok _ => exact h.of_eq rfl rfl rfl rfl
  | error f => exact ⟨h.stack, h.frame, fun _ hf => absurd hf List.not_mem_nil, h.heap⟩

theorem Closed.fetch (h : m.Closed) (env : Env Ω) {r : Except Fault (Instr UInt32)}
    {m' : Machine Ω} (hfetch : Machine.fetch env { m with offset := m.frame.ip } = (r, m')) :
    m'.Closed := by
  have hfetches := Machine.fetches env { m with offset := m.frame.ip }
  rw [hfetch] at hfetches
  cases hfetches with
  | read _ journal => exact h.of_eq rfl rfl rfl rfl
  | misread _ journal => exact h.of_eq rfl rfl rfl rfl

variable [HostData Ω]

/-- An action with values that live in the heap leaves no dangling reference. -/
theorem Closed.perform (h : m.Closed) (env : Env Ω) {action : HostAction Ω}
    (ha : action.LivesIn m.heap) : (m.perform env action).2.Closed := by
  cases action with
  | push v =>
    show (m.push env.config v).2.Closed
    exact (m.settled_push env.config fun _ => ha).closed h
  | pop => exact (m.settled_pop HostProgram.instruction).closed h
  | clearStack => exact ⟨fun _ hv => absurd hv (Array.not_mem_empty _), h.frame, h.callers, h.heap⟩
  | requestRun method => exact h.requestRun env method
  | newStruct => exact h.grow h.heap.newStruct.1
  | put container key value instruction =>
    exact h.grow (h.heap.put instruction ha.1 ha.2.2).1
  | insert r key value => exact h.grow (h.heap.insertEntry r key ha.2.2)
  | deepCopy v instruction =>
    unfold Machine.perform
    dsimp only
    split
    · next hcopy => exact h.grow (h.heap.deepCopy v instruction _ hcopy).1
    · exact h
  | cast v t instruction =>
    unfold Machine.perform
    dsimp only
    split
    · next hcast => exact h.grow (h.heap.cast ha _ hcast).1
    · exact h
  | newObject x => exact h.grow (h.heap.of_structs_eq rfl)
  | setObject r x => exact h.grow (h.heap.of_structs_eq rfl)
  | note level text => exact h.of_eq rfl rfl rfl rfl

end Machine

namespace Session

theorem closed_after {o : Outcome Ω Unit} (h : o.2.Closed) : (after o).machine.Closed := by
  obtain ⟨r, m⟩ := o
  cases r with
  | ok _ => exact h
  | error f => exact Machine.Closed.finish (o := (.error f, m)) h

variable [HostData Ω] {env : Env Ω}

/-- Every step of a session leaves its machine closed, if its host hands over only what lives in
    the heap. -/
theorem Next.closed {s s' : Session Ω}
    (hnext : Next env (HostAction.LivesIn s.machine.heap) s s') (h : s.machine.Closed) :
    s'.machine.Closed := by
  cases hnext with
  | acts ha _ => exact h.perform env ha
  | @refused m m' method f hrequest =>
    have hclosed := h.requestRun env method
    rw [hrequest] at hclosed
    exact hclosed
  | @begins m m' method hrequest =>
    have hclosed := h.requestRun env method
    rw [hrequest] at hclosed
    exact closed_after hclosed
  | @stops m _ => exact Machine.Closed.finish (o := (.ok (), m)) h
  | leaves _ _ => exact h.leave
  | misreads _ _ hfetch => exact closed_after (h.fetch env hfetch)
  | @executes m m' i _ _ hfetch hplain =>
    have hop : i.op ≠ .extCall := by
      obtain ⟨op, args⟩ := i
      rintro rfl
      obtain ⟨target, ⟨⟩⟩ := args
      exact hplain target rfl
    exact closed_after ((h.fetch env hfetch).exec env hop)
  | misses _ _ hfetch _ => exact closed_after (h.fetch env hfetch)
  | @calls m m' target name program _ _ hfetch _ =>
    obtain ⟨journal, hnote⟩ := m'.noteCall_eq env name
    show (m'.noteCall env name).Closed
    rw [hnote]
    exact (h.fetch env hfetch).of_eq rfl rfl rfl rfl
  | performs ha => exact h.perform env ha
  | @replies m name verdict =>
    cases verdict with
    | resume => exact closed_after h
    | halt =>
      exact closed_after (o := (.ok (), { m with status := .halt })) (h.of_eq rfl rfl rfl rfl)
    | fault => exact closed_after (o := (.error _, m)) h
  | fails f => exact closed_after (o := (.error f, _)) h

/-- The sessions that arise from a heap without dangling references, if the host hands over only
    values whose structs are in the heap at the time. -/
inductive Arises (env : Env Ω) : Session Ω → Prop where
  | initial {heap : Heap Ω} (hheap : heap.Closed) :
    Arises env ⟨Machine.initial env.config env.entry heap, .idle⟩
  | next {s s' : Session Ω} (harises : Arises env s)
    (hnext : Next env (HostAction.LivesIn s.machine.heap) s s') : Arises env s'

theorem Arises.closed {s : Session Ω} (h : Arises env s) : s.machine.Closed := by
  induction h with
  | initial hheap => exact Machine.closed_initial env.config env.entry hheap
  | next _ hnext ih => exact hnext.closed ih

/-- An instruction is executed that succeeds and calls no host function. -/
theorem Arises.executes {m m₁ m₂ : Machine Ω} {i : Instr UInt32} (h : Arises env ⟨m, .running⟩)
    (hrun : m.status = .running) (hend : m.frame.atEnd = false)
    (hfetch : Machine.fetch env { m with offset := m.frame.ip } = (.ok i, m₁))
    (hplain : i.op ≠ .extCall) (hexec : m₁.exec env i = (.ok (), m₂)) :
    Arises env ⟨m₂, .running⟩ := by
  have hnext : Next env (HostAction.LivesIn m.heap) ⟨m, .running⟩ (after (m₁.exec env i)) :=
    .executes hrun hend hfetch fun target hi => hplain (congrArg Instr.op hi)
  rw [hexec] at hnext
  exact .next h hnext

end Session

/-- **Faults are atomic.** Let a machine run in a session that arises from a heap without
    dangling references, with any entry context, registry and host functions, and let any
    instruction stand in its code, at any offset.

    If the instruction cannot be decoded, then the machine is untouched.  If it is no `EXTCALL`
    and its execution faults, then the machine is untouched, too: the stack, all frames, their
    registers and the heap are as before.  There is one exception: `PUT` into a register that
    holds none, with a scalar key and with a value that is nested too deep, faults for its
    nesting, and leaves a new empty struct in that register. -/
theorem faults_are_atomic {Ω : Type} [HostData Ω] (env : Env Ω) {m : Machine Ω}
    (harises : Session.Arises env ⟨m, .running⟩) (ip : Nat) :
    (∀ f m', Machine.fetch env { m with frame := { m.frame with ip }, offset := ip } =
      (.error f, m') → m.Untouched m') ∧
    ∀ (i : Instr UInt32) (offset : Nat) (journal : Array LogEntry), i.op ≠ .extCall →
      let start := { m with frame := { m.frame with ip }, offset, journal }
      (∀ f m', start.exec env i = (.error f, m') →
        m.Untouched m' ∨ ∃ value container key, i = ⟨.put, (value, container, key, ())⟩ ∧
          m.PutsTooDeep value container key) ∧
      ∀ value container key, i = ⟨.put, (value, container, key, ())⟩ →
        m.PutsTooDeep value container key →
        ∃ m', start.exec env i = (.error (.outOfRange "PUT" .nesting), m') ∧
          (m.withNewStruct container).Untouched m' := by
  constructor
  · intro f m' hfetch
    have hfetches := Machine.fetches env { m with frame := { m.frame with ip }, offset := ip }
    rw [hfetch] at hfetches
    cases hfetches with
    | misread _ journal => exact ⟨rfl, rfl, rfl, rfl, rfl⟩
  · intro i offset journal hplain start
    have hclosed : start.Closed := harises.closed.of_eq rfl rfl rfl rfl
    constructor
    · intro f m' hexec
      -- `PUT` alone may have changed something by the time it faults
      by_cases hput : i.op = .put
      · obtain ⟨op, args⟩ := i
        cases hput
        obtain ⟨value, container, key, ⟨⟩⟩ := args
        change start.putEntry "PUT" value container key = (.error f, m') at hexec
        have hcases := hclosed.putEntry_error (congrArg Prod.fst hexec)
        rw [hexec] at hcases
        rcases hcases with rfl | ⟨hcontainer, hkey, hvalue⟩
        · exact .inl ⟨rfl, rfl, rfl, rfl, rfl⟩
        · exact .inr ⟨value, container, key, rfl, hcontainer, hkey, hvalue⟩
      · have hsettled : start.Settled (start.exec env i) := start.exec_settled i hput hplain
        obtain ⟨journal', hm'⟩ := hsettled.atomic f (congrArg Prod.fst hexec)
        rw [hexec] at hm'
        subst hm'
        exact .inl ⟨rfl, rfl, rfl, rfl, rfl⟩
    · rintro value container key rfl ⟨hcontainer, hkey, hvalue⟩
      have hdeep : start.PutsTooDeep value container key := ⟨hcontainer, hkey, hvalue⟩
      refine ⟨start.withNewStruct container, ?_, rfl, rfl, rfl, rfl, rfl⟩
      exact hclosed.putEntry_of_putsTooDeep hdeep "PUT"

/-- A called frame holds a struct that is nested too deep, and a key.  A `POP` finds nothing on
    the stack and changes nothing; a `PUT` of that struct into an empty register leaves a new
    struct there. -/
theorem pop_and_deep_put_are_atomic :
    let code : List (Instr UInt32) := [⟨.load, (0, .bool true, ())⟩, ⟨.call, (10, ())⟩, ⟨.ret, ()⟩,
      ⟨.pop, (1, ())⟩, ⟨.load, (2, .bool true, ())⟩]
    let c : Context := ⟨0, "main", .ofCode (code.flatMap Instr.encode).toArray⟩
    let env : Env Empty := ⟨{ registers := 3 }, c, .empty, .empty⟩
    ∃ m : Machine Empty, Session.Arises env ⟨m, .running⟩ ∧
      m.frame.registers = #[.none, .struct ⟨0⟩, .bool true] ∧
      m.callers.map Frame.registers = [#[.bool true, .none, .none]] ∧
      (∃ f m', m.exec env ⟨.pop, (0, ())⟩ = (.error f, m') ∧ m.Untouched m') ∧
      ∃ m', m.exec env ⟨.put, (1, 0, 2, ())⟩ = (.error (.outOfRange "PUT" .nesting), m') ∧
        (m.withNewStruct 0).Untouched m' := by
  intro code c env
  obtain ⟨heap, hclosed, hlives, hdescends⟩ : ∃ heap : Heap Empty, heap.Closed ∧
      (Value.struct ⟨0⟩).LivesIn heap ∧ heap.Descends (maxNesting - 1) ⟨0⟩ := by
    obtain ⟨P, Q, hstitched⟩ := Heap.stitched_stitched 126
    exact ⟨_, (Heap.built_stitched 126).resolved.closed, hstitched.resolves.1,
      hstitched.descends.1.mono (Nat.sub_le maxNesting 1)⟩
  -- the host pushes the struct and starts a run, which pops it in a called frame
  let state (frame : Frame) (callers : List Frame) (stack : Array Value) (offset : Nat) :
      Machine Empty := ⟨frame, callers, stack, .running, offset, none, heap, #[]⟩
  let v : Value := .struct ⟨0⟩
  let caller : Frame := ⟨c, #[.bool true, .none, .none], 9⟩
  let ready : Machine Empty := ((Machine.initial env.config c heap).perform env (.push v)).2
  let begun : Machine Empty := state (Frame.fresh env.config c 0) [] #[v] 0
  let loaded : Machine Empty := state ⟨c, #[.bool true, .none, .none], 4⟩ [] #[v] 0
  let called : Machine Empty := state (Frame.fresh env.config c 10) [caller] #[v] 4
  let popped : Machine Empty := state ⟨c, #[.none, v, .none], 12⟩ [caller] #[] 10
  let m : Machine Empty := state ⟨c, #[.none, v, .bool true], 16⟩ [caller] #[] 12
  have hready : Session.Arises env ⟨ready, .idle⟩ :=
    .next (.initial hclosed) (.acts hlives fun method => by rintro ⟨⟩)
  have hrequest : ready.requestRun env none = (.ok (), begun) := rfl
  have hbegun : Session.Arises env ⟨begun, .running⟩ := .next hready (.begins hrequest)
  have hloaded : Session.Arises env ⟨loaded, .running⟩ :=
    hbegun.executes (i := ⟨.load, (0, .bool true, ())⟩) rfl rfl rfl (by decide) rfl
  have hcalled : Session.Arises env ⟨called, .running⟩ :=
    hloaded.executes (i := ⟨.call, (10, ())⟩) rfl rfl rfl (by decide) rfl
  have hpopped : Session.Arises env ⟨popped, .running⟩ :=
    hcalled.executes (i := ⟨.pop, (1, ())⟩) rfl rfl rfl (by decide) rfl
  have harises : Session.Arises env ⟨m, .running⟩ :=
    hpopped.executes (i := ⟨.load, (2, .bool true, ())⟩) rfl rfl rfl (by decide) rfl
  have hdeep : m.PutsTooDeep 1 0 2 :=
    ⟨rfl, ⟨.bool true, rfl, rfl⟩, .struct ⟨0⟩, rfl, ⟨0⟩, rfl, hdescends⟩
  have hexec : m.exec env ⟨.pop, (0, ())⟩ = (.error (.stackUnderflow "POP"), m) := rfl
  obtain ⟨-, hatomic⟩ := faults_are_atomic env harises m.frame.ip
  obtain ⟨huntouched, -⟩ := hatomic ⟨.pop, (0, ())⟩ m.offset m.journal (by decide)
  obtain ⟨-, hput⟩ := hatomic ⟨.put, (1, 0, 2, ())⟩ m.offset m.journal (by decide)
  refine ⟨m, harises, rfl, rfl, ⟨_, _, hexec, ?_⟩, hput 1 0 2 rfl hdeep⟩
  rcases huntouched _ _ hexec with huntouched | ⟨value, container, key, hno, -⟩
  · exact huntouched
  · cases hno

end ContractVM
