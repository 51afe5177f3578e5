import ContractVM.Command.Execute
import ContractVM.Proofs.Heap.Sound
import ContractVM.Proofs.Machine.Confined
import ContractVM.Proofs.Machine.Session
import ContractVM.Proofs.Machine.Steps

/-! # Structs over whole sessions

    Scripts reach structs by `PUT`, `COPY`, `CAST` and `CTX` only, and a host that sets no
    entry unchecked has no other means.  So every step of a session changes the heap by one
    checked operation at most, and the heap stays sound whatever the code is. -/

namespace ContractVM

variable {Ω : Type}

/-- Does the action respect the structs?  Only a host can set entries without any check. -/
def HostAction.Checked : HostAction Ω → Prop
  | .insert _ _ _ => False
  | _ => True

variable [HostData Ω] {env : Env Ω}

/-! ## Section 1: Single steps -/

namespace Machine

variable (m : Machine Ω)

omit [HostData Ω] in
theorem requestRun_heap (env : Env Ω) (method : Option String) :
    (m.requestRun env method).2.heap = m.heap := by
  have hrequests := m.requests env method
  generalize m.requestRun env method = o at hrequests ⊢
  cases hrequests with
  | nested _ => rfl
  | starts _ _ => rfl
  | unknown _ _ _ _ => rfl

/-- A checked action is one operation on the heap at most. -/
theorem perform_change {action : HostAction Ω} (ha : action.Checked) :
    m.heap.Change (m.perform env action).2.heap := by
  cases action with
  | push v =>
    have hpush : Confined env.config fun m : Machine Ω => m.push env.config v := confined_push v
    exact (hpush.keeps m).heap
  | pop =>
    have hpop : Confined env.config fun m : Machine Ω => m.pop HostProgram.instruction :=
      confined_pop HostProgram.instruction
    exact (hpop.keeps m).heap
  | clearStack => exact .none m.heap
  | requestRun method => exact .of_eq (m.requestRun_heap env method)
  | newStruct => exact .newStruct m.heap
  | put container key value instruction => exact .put m.heap container key value instruction
  | insert r key value => exact ha.elim
  | deepCopy v instruction =>
    unfold perform
    dsimp only
    split
    · next hcopy => exact .deepCopy hcopy
    · exact .none m.heap
  | cast v t instruction =>
    unfold perform
    dsimp only
    split
    · next hcast => exact Heap.change_cast hcast
    · exact .none m.heap
  | newObject x => exact .newObject m.heap x
  | setObject r x => exact .setObject m.heap r x
  | note level text => exact .none m.heap

omit [HostData Ω] in
theorem Enters.heap_eq {config : Config} {m : Machine Ω} {o : Outcome Ω Unit}
    (h : Enters config m o) : o.2.heap = m.heap := by
  cases h with
  | entered _ _ journal => rfl
  | refused f journal => rfl

/-- An instruction that calls no host function is one operation on the heap at most. -/
theorem exec_change {i : Instr UInt32} (hplain : ∀ target, i ≠ ⟨.extCall, (target, ())⟩) :
    m.heap.Change (m.exec env i).2.heap := by
  cases exec_reach env i with
  | confined h => exact (h.keeps m).heap
  | calls target hi =>
    subst hi
    exact .of_eq (m.enters_callTarget env.config target).heap_eq
  | returns hi =>
    subst hi
    exact .of_eq m.leave_heap
  | switches handle hi =>
    subst hi
    exact .of_eq (m.enters_switchContext env.config _ handle).heap_eq
  | callsHost target hi => exact absurd hi (hplain target)

omit [HostData Ω] in
theorem heap_of_fetch {m m' : Machine Ω} {r : Except Fault (Instr UInt32)}
    (hfetch : Machine.fetch env { m with offset := m.frame.ip } = (r, m')) : m'.heap = m.heap := by
  have hfetches := fetches env { m with offset := m.frame.ip }
  rw [hfetch] at hfetches
  cases hfetches with
  | read _ journal => rfl
  | misread _ journal => rfl

end Machine

/-! ## Section 2: Whole sessions -/

namespace Session

omit [HostData Ω] in
theorem after_heap (o : Outcome Ω Unit) : (after o).machine.heap = o.2.heap := by
  obtain ⟨r, m⟩ := o
  cases r with
  | ok _ => rfl
  | error f => rfl

/-- A step of a session is one operation on the heap at most, if the host keeps to the
    checked ones. -/
theorem Next.change {s s' : Session Ω} (h : Next env HostAction.Checked s s') :
    s.machine.heap.Change s'.machine.heap := by
  cases h with
  | acts ha _ => exact Machine.perform_change _ ha
  | @refused m m' method f hrequest =>
    have hheap := m.requestRun_heap env method
    rw [hrequest] at hheap
    exact .of_eq hheap
  | @begins m m' method hrequest =>
    have hheap := m.requestRun_heap env method
    rw [hrequest] at hheap
    exact .of_eq ((after_heap _).trans hheap)
  | stops _ => exact .none _
  | @leaves m _ _ => exact .of_eq m.leave_heap
  | misreads _ _ hfetch => exact .of_eq ((after_heap _).trans (Machine.heap_of_fetch hfetch))
  | @executes m m' i _ _ hfetch hplain =>
    -- fetching leaves the heap alone, so the one change is that of the instruction
    have hexec : m'.heap.Change (m'.exec env i).2.heap := m'.exec_change hplain
    rw [Machine.heap_of_fetch hfetch] at hexec
    rw [after_heap]
    exact hexec
  | misses _ _ hfetch _ => exact .of_eq ((after_heap _).trans (Machine.heap_of_fetch hfetch))
  | @calls m m' target name program _ _ hfetch _ =>
    obtain ⟨journal, hnote⟩ := m'.noteCall_eq env name
    have hheap : (m'.noteCall env name).heap = m'.heap := by rw [hnote]
    exact .of_eq (hheap.trans (Machine.heap_of_fetch hfetch))
  | performs ha => exact Machine.perform_change _ ha
  | @replies m name verdict =>
    have hheap : (m.obey name verdict).2.heap = m.heap := by
      cases verdict with
      | resume => rfl
      | halt => rfl
      | fault => rfl
    exact .of_eq ((after_heap _).trans hheap)
  | fails f => exact .none _

end Session

/-- **Structs stay sound.** Let a session begin with no structs on the heap, and let its
    host build and change structs by the checked operations only, between runs as well as
    in host functions.  Whatever code its machine runs, in every session that is reached
    the links between structs form no cycle, every key is a scalar, and no two keys of one
    struct are equal. -/
theorem structs_stay_sound {s₀ s : Session Ω} (hempty : s₀.machine.heap.structs.size = 0)
    (hreach : Session.Reaches env HostAction.Checked s₀ s) :
    (∀ r, ¬Relation.TransGen s.machine.heap.Links r r) ∧
    ∀ r, (∀ e ∈ s.machine.heap.entries r, e.1.isScalar = true) ∧
      (s.machine.heap.entries r).Pairwise fun e f =>
        s.machine.heap.equals e.1 f.1 = false ∧ s.machine.heap.equals f.1 e.1 = false := by
  have hstart : s₀.machine.heap.Sound := Heap.sound_of_size_eq_zero hempty
  have hsound : s.machine.heap.Sound :=
    hreach.invariant (P := fun s => s.machine.heap.Sound)
      (fun _ _ hnext hs => hs.change hnext.change) hstart
  refine ⟨hsound.acyclic, fun r => ⟨(hsound.keyed r).scalar, ?_⟩⟩
  exact hsound.pairwise_not_equals r

/-- A script that puts a struct into another one. -/
theorem nested_structs_stay_sound :
    let code : List (Instr UInt32) :=
      [⟨.load, (0, .bool true, ())⟩, ⟨.put, (0, 1, 0, ())⟩, ⟨.put, (1, 2, 0, ())⟩]
    let c : Context := ⟨0, "main", .ofCode (code.flatMap Instr.encode).toArray⟩
    let env : Env Empty := ⟨{}, c, .empty, .empty⟩
    let s₀ : Session Empty := ⟨Machine.initial env.config c .empty, .idle⟩
    ∃ s, Session.Reaches env HostAction.Checked s₀ s ∧
      s.machine.heap.Links ⟨1⟩ ⟨0⟩ ∧ ∀ r, ¬Relation.TransGen s.machine.heap.Links r r := by
  intro code c env s₀
  have hinterops : ∀ name program, env.interops.find? name = some program →
      program.KeepsTo HostAction.Checked := by
    intro name program hfind
    cases hfind
  have hentries : (s₀.machine.execute env 5).map (fun o => o.2.heap.entries ⟨1⟩) =
      some [(.bool true, .struct ⟨0⟩)] := by
    decide +kernel
  obtain ⟨⟨r, m⟩, hrun, hentries⟩ := Option.map_eq_some_iff.mp hentries
  have hlink : m.heap.Links ⟨1⟩ ⟨0⟩ := by
    refine ⟨(.bool true, .struct ⟨0⟩), ?_, rfl⟩
    rw [hentries]
    exact List.mem_singleton_self _
  have hreach := Session.reaches_of_runFrom hinterops hrun
  exact ⟨⟨m, .idle⟩, hreach, hlink, (structs_stay_sound rfl hreach).1⟩

end ContractVM
