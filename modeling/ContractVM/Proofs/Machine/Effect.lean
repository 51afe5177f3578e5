import ContractVM.Proofs.Heap.Contexts
import ContractVM.Proofs.Machine.Works

/-! # What instructions do to control

    Most instructions compute on registers, the stack and the heap, and leave it to the
    frame to go on behind them.  The others are few:

    * **Jumps** move the frame to a target.
    * **Calls**, `SWITCH` and `RET` change which frame is the current one.
    * **`EXTCALL`** runs a host program.

    `Effect` lists these cases, and `exec_effect` says that there are no others. -/

namespace ContractVM

variable {Ω α : Type} {P : Context → Prop}

namespace Machine

/-! ## Section 1: Frames that stay -/

/-- The frames are where they were, and the machine is doing what it did. -/
structure StaysPut (m m' : Machine Ω) : Prop where
  context : m'.frame.context = m.frame.context
  ip : m'.frame.ip = m.frame.ip
  callers : m'.callers = m.callers
  status : m'.status = m.status

theorem StaysPut.refl (m : Machine Ω) : StaysPut m m :=
  ⟨rfl, rfl, rfl, rfl⟩

theorem StaysPut.trans {m m₁ m₂ : Machine Ω} (h : StaysPut m m₁) (h' : StaysPut m₁ m₂) :
    StaysPut m m₂ :=
  ⟨h'.context.trans h.context, h'.ip.trans h.ip, h'.callers.trans h.callers,
    h'.status.trans h.status⟩

/-- The outcome leaves the frames alone, makes no context up, and does not blame the
    code. -/
structure Harmless (P : Context → Prop) (m : Machine Ω) (o : Outcome Ω α) : Prop where
  stays : StaysPut m o.2
  contexts : m.heap.ContextsIn P → o.2.heap.ContextsIn P
  legible : Legible o.1

section Harmless

variable (m : Machine Ω)

theorem harmless_unchanged {r : Except Fault α} (hr : Legible r) : Harmless P m (r, m) :=
  ⟨.refl m, id, hr⟩

theorem harmless_setRegisters (changes : List (UInt8 × Value)) :
    Harmless P m (.ok (), m.setRegisters changes) :=
  ⟨⟨rfl, rfl, rfl, rfl⟩, id, .ok ()⟩

theorem harmless_assign (index : UInt8) (v : Value) : Harmless P m (m.assign index v) := by
  unfold assign
  split
  · exact m.harmless_setRegisters [(index, v)]
  · next f hf => exact m.harmless_unchanged (.error (m.legible_register index f hf))

/-- A result is stored, or its fault is passed on. -/
theorem harmless_store (index : UInt8) {r : Except Fault Value} (hr : Legible r) :
    Harmless P m (m.store index r) := by
  cases r with
  | ok v => exact m.harmless_assign index v
  | error f => exact m.harmless_unchanged (.error (hr f rfl))

theorem harmless_storeWithHeap (index : UInt8) {r : Except Fault (Value × Heap Ω)}
    (hr : Legible r)
    (hheap : ∀ v heap, r = .ok (v, heap) → m.heap.ContextsIn P → heap.ContextsIn P) :
    Harmless P m (m.storeWithHeap index r) := by
  unfold storeWithHeap
  cases r with
  | error f => exact m.harmless_unchanged (.error (hr f rfl))
  | ok result =>
    cases hold : m.register index with
    | error f => exact m.harmless_unchanged (.error (m.legible_register index f hold))
    | ok old => exact ⟨⟨rfl, rfl, rfl, rfl⟩, hheap result.1 result.2 rfl, .ok ()⟩

/-! ## Section 2: Single instructions -/

theorem harmless_push (config : Config) (v : Value) : Harmless P m (m.push config v) := by
  unfold push
  split
  · exact ⟨⟨rfl, rfl, rfl, rfl⟩, id, .ok ()⟩
  · exact m.harmless_unchanged (.error rfl)

theorem harmless_pushRegister (config : Config) (src : UInt8) :
    Harmless P m (m.pushRegister config src) := by
  unfold pushRegister
  split
  · next f hf => exact m.harmless_unchanged (.error (m.legible_register src f hf))
  · exact m.harmless_push config _

theorem harmless_pop (instruction : String) : Harmless P m (m.pop instruction) := by
  unfold pop
  split
  · exact ⟨⟨rfl, rfl, rfl, rfl⟩, id, .ok _⟩
  · exact m.harmless_unchanged (.error rfl)

theorem harmless_popRegister (instruction : String) (dst : UInt8) :
    Harmless P m (m.popRegister instruction dst) := by
  unfold popRegister
  split
  · next f hf => exact m.harmless_unchanged (.error (m.legible_register dst f hf))
  · have hpop := m.harmless_pop (P := P) instruction
    split
    · next v m₁ heq =>
      rw [heq] at hpop
      exact ⟨⟨hpop.stays.context, hpop.stays.ip, hpop.stays.callers, hpop.stays.status⟩,
        hpop.contexts, .ok ()⟩
    · next f m₁ heq =>
      rw [heq] at hpop
      exact ⟨hpop.stays, hpop.contexts, .error (hpop.legible f rfl)⟩

theorem harmless_putEntry [HostData Ω] (instruction : String) (value container key : UInt8) :
    Harmless P m (m.putEntry instruction value container key) := by
  unfold putEntry
  split
  · next f hf =>
    have hread : Legible (do return (← m.register value, ← m.register key, ← m.register container) :
        Except Fault (Value × Value × Value)) :=
      (m.legible_register value).bind fun _ => (m.legible_register key).bind fun _ =>
        (m.legible_register container).bind fun _ => .ok _
    exact m.harmless_unchanged (.error (hread f hf))
  · next v k c _ =>
    exact ⟨⟨rfl, rfl, rfl, rfl⟩, fun hp => hp.put c k v instruction,
      m.heap.legible_put c v instruction k⟩

end Harmless

end Machine

/-! ## Section 3: All instructions -/

variable [HostData Ω] {env : Env Ω}

theorem Question.legible_answer (q : Question) (h : Heap Ω) (instruction : String) :
    Legible (q.answer h instruction) := by
  cases q with
  | count v => exact (h.legible_count v instruction).bind fun _ => .ok _
  | equal v w => exact (h.legible_equal v w instruction).bind fun _ => .ok _
  | get container key => exact h.legible_get container key instruction

theorem Product.legible_make (p : Product) (env : Env Ω) (h : Heap Ω) (instruction : String) :
    Legible (p.make env h instruction) := by
  cases p with
  | copy v => exact h.legible_deepCopy v instruction
  | cast v type => exact h.legible_cast v instruction type
  | handle name => exact (env.registry.legible_resolve name).bind fun _ => .ok _

/-- A handle is made of a registered context. -/
theorem Product.contextsIn_make (hregistry : ∀ c ∈ env.registry.contexts, P c) {p : Product}
    {h heap : Heap Ω} {instruction : String} {v : Value}
    (hmake : p.make env h instruction = .ok (v, heap)) (hp : h.ContextsIn P) :
    heap.ContextsIn P := by
  cases p with
  | copy w => exact hp.deepCopy hmake
  | cast w type => exact hp.cast hmake
  | handle name =>
    obtain ⟨c, hc, heq⟩ := Except.bind_eq_ok.mp hmake
    cases heq
    apply hp.addObject
    unfold Registry.resolve at hc
    split at hc
    · next hfind =>
      cases hc
      exact hregistry _ (List.mem_of_find?_eq_some hfind)
    · cases hc

namespace Machine

/-- What an instruction does to control. -/
inductive Effect (P : Context → Prop) (env : Env Ω) (m : Machine Ω) (i : Instr UInt32)
    (o : Outcome Ω Unit) : Prop where
  | harmless (h : Harmless P m o)
  | jumps {target : UInt32} (htarget : i.target? = some target) (h : o = m.jump target)
  | calls {target : UInt32} (htarget : i.target? = some target)
    (h : o = m.callTarget env.config target)
  | returns (h : o = (.ok (), m.leave))
  | switches {handle : UInt8} (h : o = m.switchContext env.config "SWITCH" handle)
  | callsHost {target : Target} (hinstr : i = ⟨.extCall, (target, ())⟩)
    (h : o = m.callHost env "EXTCALL" target)

/-- Work is harmless, unless it is a jump to the target.  The cases are the kinds of work. -/
theorem effect_of_works (hregistry : ∀ c ∈ env.registry.contexts, P c) {i : Instr UInt32}
    {known : List Value} {w : Work Ω} (hw : Works i known w) (m : Machine Ω) :
    Effect P env m i (w env m) := by
  induction hw with
  | ends hr => exact .harmless (m.harmless_unchanged hr)
  | reads index _ ih =>
    dsimp only [attempt]
    split
    · next v _ => exact ih v
    · next f hf => exact .harmless (m.harmless_unchanged (.error (m.legible_register index f hf)))
  | @sets _ changes => exact .harmless (m.harmless_setRegisters changes)
  | @asks _ dst _ q instruction =>
    exact .harmless (m.harmless_store dst (q.legible_answer m.heap instruction))
  | @makes _ dst _ p _ _ instruction =>
    exact .harmless (m.harmless_storeWithHeap dst (p.legible_make env m.heap instruction)
      fun _ _ => Product.contextsIn_make hregistry)
  | @pushes _ src => exact .harmless (m.harmless_pushRegister env.config src)
  | @pops _ dst _ instruction => exact .harmless (m.harmless_popRegister instruction dst)
  | @puts _ value container key _ instruction =>
    exact .harmless (m.harmless_putEntry instruction value container key)
  | jumps htarget => exact .jumps htarget rfl

/-- Every instruction has one of the effects. -/
theorem exec_effect (hregistry : ∀ c ∈ env.registry.contexts, P c) (m : Machine Ω)
    (i : Instr UInt32) : Effect P env m i (m.exec env i) := by
  cases exec_does (Ω := Ω) i with
  | works h => exact effect_of_works hregistry h m
  | calls target hi =>
    subst hi
    exact .calls rfl rfl
  | returns hi =>
    subst hi
    exact .returns rfl
  | switches handle hi =>
    subst hi
    exact .switches rfl
  | callsHost target hi =>
    subst hi
    exact .callsHost rfl rfl

end Machine

end ContractVM
