import ContractVM.Command.Execute
import ContractVM.Proofs.Assembly.Labels
import ContractVM.Proofs.Machine.Interop
import ContractVM.Proofs.Machine.Rows
import ContractVM.Proofs.Machine.Steps

/-! # Frames of assembled code

    Code that was assembled from a source without numeric jump targets is never
    misread: a frame always stands before one of its instructions, or at the end.

    * **Sources**: their jumps lead to instructions, as labels do.
    * **The invariant** `WellPlaced`: every frame is `Aligned`, and every context in the
      heap was assembled.
    * **One step** keeps it, whatever the instruction.
    * **Runs** keep it, by induction over their steps, each of which may have other host
      functions. -/

namespace ContractVM

open Assembly

/-! ## Section 1: Sources whose jumps name labels -/

namespace Assembly

/-- Is no jump or call of the source written with an offset? -/
def JumpsToLabels (source : String) : Prop :=
  ∀ own, items (numbered 1 (Text.lines source)) = .ok own →
    ∀ s ∈ statementsOf own, ∀ a, s.instr.target? = some a → a.isLabel = true

instance (source : String) : Decidable (JumpsToLabels source) :=
  decidable_of_iff
    ((match items (numbered 1 (Text.lines source)) with
      | .ok own => (statementsOf own).all fun s => s.instr.target?.all Address.isLabel
      | .error _ => true) = true) (by
    unfold JumpsToLabels
    cases items (numbered 1 (Text.lines source)) with
    | error e => simp
    | ok own => simp [List.all_eq_true, Option.all_eq_true])

/-- A label comes after no more instructions than there are. -/
theorem le_length_of_mem_definitions {l : LabelDef} {k : Nat} {its : List Item}
    (h : (l, k) ∈ definitions its) : k ≤ (statementsOf its).length := by
  obtain ⟨front, back, rfl, rfl⟩ := mem_definitions.mp h
  rw [statementsOf_append, List.length_append]
  omega

end Assembly

/-- Was the context assembled from a source whose jumps and calls all name labels? -/
def Context.WellAssembled (c : Context) : Prop :=
  ∃ source, assemble source = .ok c.script ∧ JumpsToLabels source

/-- The context was assembled from such a source, with these instructions placed in its
    code. -/
def Context.AssembledAs (c : Context) (placed : List (Instr UInt32)) : Prop :=
  ∃ source own, assemble source = .ok c.script ∧ JumpsToLabels source ∧
    items (numbered 1 (Text.lines source)) = .ok own ∧
    LaidOut (withDispatcher own) placed c.script

namespace Context

variable {c : Context} {placed : List (Instr UInt32)}

theorem WellAssembled.exists_assembledAs (h : c.WellAssembled) :
    ∃ placed, c.AssembledAs placed := by
  obtain ⟨source, hassemble, hjumps⟩ := h
  obtain ⟨own, placed, hown, hlaid⟩ := assemble_laidOut hassemble
  exact ⟨placed, source, own, hassemble, hjumps, hown, hlaid⟩

theorem AssembledAs.wellAssembled (h : c.AssembledAs placed) : c.WellAssembled := by
  obtain ⟨source, own, hassemble, hjumps, -, -⟩ := h
  exact ⟨source, hassemble, hjumps⟩

theorem AssembledAs.code (h : c.AssembledAs placed) :
    c.code.toList = placed.flatMap Instr.encode := by
  obtain ⟨source, own, -, -, -, hlaid⟩ := h
  exact hlaid.code

theorem AssembledAs.size_lt (h : c.AssembledAs placed) : c.code.size < UInt32.size := by
  obtain ⟨source, own, -, -, -, hlaid⟩ := h
  exact hlaid.size_lt

/-- Behind the last instruction the code ends. -/
theorem AssembledAs.startOf_length (h : c.AssembledAs placed) :
    startOf placed placed.length = c.code.size := by
  rw [startOf_of_length_le (Nat.le_refl _), ← h.code, Array.length_toList]

theorem AssembledAs.startOf_le_size (h : c.AssembledAs placed) (k : Nat) :
    startOf placed k ≤ c.code.size := by
  rw [← Array.length_toList, h.code]
  exact startOf_le placed k

/-- The code is small enough for all of its instructions to be read back. -/
theorem AssembledAs.fits (h : c.AssembledAs placed) {i : Instr UInt32} (hi : i ∈ placed) :
    i.Fits := by
  obtain ⟨j, hj⟩ := List.mem_iff_getElem?.mp hi
  have hcode := h.code
  have hsize := h.size_lt
  rw [flatMap_encode_split hj] at hcode
  rw [← Array.length_toList, hcode, List.length_append, List.length_append] at hsize
  have hlimit : UInt32.size < UInt64.size := by decide
  exact i.fits_of_length (by omega)

/-- The placed instructions are those that the code is read as, so there is no choice of
    them. -/
theorem AssembledAs.listing (h : c.AssembledAs placed) :
    Reader.listing c.code 0 = .ok (placed, c.code.size) :=
  Reader.listing_encode placed (fun _ hi => h.fits hi) c.code [] h.code

theorem AssembledAs.unique {placed' : List (Instr UInt32)} (h : c.AssembledAs placed)
    (h' : c.AssembledAs placed') : placed = placed' := by
  have heq := h.listing.symm.trans h'.listing
  exact (Prod.mk.inj (Except.ok.inj heq)).1

/-- The offset of a method is the place of an instruction, or the end. -/
theorem AssembledAs.method (h : c.AssembledAs placed) {name : String} {offset : UInt32}
    (hmethod : c.script.methodOffset? name = some offset) :
    ∃ k ≤ placed.length, offset.toNat = startOf placed k := by
  obtain ⟨source, own, -, -, -, hlaid⟩ := h
  unfold Script.methodOffset? at hmethod
  obtain ⟨entry, hfind, rfl⟩ := Option.map_eq_some_iff.mp hmethod
  have hmem := List.mem_of_find?_eq_some hfind
  rw [hlaid.methods] at hmem
  obtain ⟨⟨l, k⟩, hl, rfl⟩ := List.mem_map.mp hmem
  refine ⟨k, ?_, hlaid.toNat_ofNat_startOf k⟩
  rw [← hlaid.resolved.length_eq]
  exact le_length_of_mem_definitions (List.mem_filter.mp hl).1

/-- Runs of the context start at the place of an instruction, or at the end. -/
theorem AssembledAs.entry {Ω : Type} {env : Env Ω} (h : env.entry.AssembledAs placed)
    {method : Option String} {entry : Nat} (hentry : env.entryOffset? method = some entry) :
    ∃ k ≤ placed.length, entry = startOf placed k := by
  cases method with
  | none =>
    cases hentry
    exact ⟨0, Nat.zero_le _, rfl⟩
  | some name =>
    obtain ⟨offset, hoffset, rfl⟩ := Option.map_eq_some_iff.mp hentry
    exact h.method hoffset

/-- A jump leads to the place of an instruction, or to the end. -/
theorem AssembledAs.target (h : c.AssembledAs placed) {i : Instr UInt32} (hi : i ∈ placed)
    {target : UInt32} (htarget : i.target? = some target) :
    ∃ k ≤ placed.length, target.toNat = startOf placed k := by
  obtain ⟨source, own, -, hjumps, hown, hlaid⟩ := h
  obtain ⟨s, hs, hresolves⟩ := exists_statement hlaid.resolved hi
  obtain ⟨a, ha, hresolve⟩ := Instr.target?_of_mapAddress hresolves htarget
  -- neither the dispatcher nor the source jumps to offsets
  have hlabel : a.isLabel = true := by
    rw [statementsOf_withDispatcher] at hs
    rcases List.mem_append.mp hs with hs | hs
    · obtain ⟨j, hj, rfl⟩ := List.mem_map.mp hs
      exact isLabel_of_mem_dispatch hj ha
    · exact hjumps own hown s hs a ha
  cases a with
  | offset n => cases hlabel
  | label name =>
    obtain ⟨l, k, hl, -, rfl⟩ := LaidOut.defined_of_resolve hresolve
    refine ⟨k, ?_, hlaid.toNat_ofNat_startOf k⟩
    rw [← hlaid.resolved.length_eq]
    exact le_length_of_mem_definitions hl

end Context

/-! ## Section 2: The invariant -/

/-- The frame stands before an instruction that was placed in its code, or exactly at the
    end of it. -/
def Frame.Aligned (f : Frame) : Prop :=
  ∃ placed, f.context.AssembledAs placed ∧ ∃ k ≤ placed.length, f.ip = startOf placed k

/-- Only the context and the offset of a frame matter. -/
theorem Frame.Aligned.of_eq {f g : Frame} (h : f.Aligned) (hcontext : g.context = f.context)
    (hip : g.ip = f.ip) : g.Aligned := by
  obtain ⟨placed, hplaced, k, hk, heq⟩ := h
  exact ⟨placed, by rwa [hcontext], k, hk, hip.trans heq⟩

theorem Frame.Aligned.wellAssembled {f : Frame} (h : f.Aligned) : f.context.WellAssembled := by
  obtain ⟨placed, hplaced, -⟩ := h
  exact hplaced.wellAssembled

/-- A fresh frame at the start of an assembled context is aligned. -/
theorem Context.WellAssembled.aligned_fresh {c : Context} (h : c.WellAssembled)
    (config : Config) : (Frame.fresh config c 0).Aligned := by
  obtain ⟨placed, hplaced⟩ := h.exists_assembledAs
  exact ⟨placed, hplaced, 0, Nat.zero_le _, rfl⟩

/-- Were all contexts that a run starts from assembled, and do the host functions supply
    no others? -/
structure Env.WellAssembled {Ω : Type} (env : Env Ω) : Prop where
  entry : env.entry.WellAssembled
  registry : ∀ c ∈ env.registry.contexts, c.WellAssembled
  interops : ∀ name program, env.interops.find? name = some program →
    program.Supplies Context.WellAssembled

namespace Machine

variable {Ω α : Type}

/-- The invariant of runs: all frames are aligned, and scripts hold handles of assembled
    contexts only. -/
structure WellPlaced (m : Machine Ω) : Prop where
  frame : m.frame.Aligned
  callers : ∀ f ∈ m.callers, f.Aligned
  contexts : m.heap.ContextsIn Context.WellAssembled

variable {m : Machine Ω}

theorem WellPlaced.of_harmless (h : WellPlaced m) {o : Outcome Ω α}
    (ho : Harmless Context.WellAssembled m o) : WellPlaced o.2 where
  frame := h.frame.of_eq ho.stays.context ho.stays.ip
  callers := by
    rw [ho.stays.callers]
    exact h.callers
  contexts := ho.contexts h.contexts

/-- Leaving a frame resumes one that was aligned before. -/
theorem WellPlaced.leave (h : WellPlaced m) : WellPlaced m.leave := by
  cases hcallers : m.callers with
  | nil =>
    rw [m.leave_of_nil hcallers]
    exact ⟨h.frame, h.callers, h.contexts⟩
  | cons caller callers =>
    obtain ⟨-, hframe, hrest⟩ := m.leave_of_cons hcallers
    refine ⟨?_, ?_, ?_⟩
    · rw [hframe]
      exact h.callers caller (by rw [hcallers]; exact List.mem_cons_self)
    · intro f hf
      rw [hrest] at hf
      exact h.callers f (by rw [hcallers]; exact List.mem_cons_of_mem caller hf)
    · rw [leave_heap]
      exact h.contexts

/-- A fresh aligned frame may be entered. -/
theorem WellPlaced.enter (h : WellPlaced m) {config : Config} {c : Context} {ip : Nat}
    (hfresh : (Frame.fresh config c ip).Aligned) :
    WellPlaced (m.enter config c ip).2 ∧ Legible (m.enter config c ip).1 := by
  unfold Machine.enter
  split
  · exact ⟨h, .error rfl⟩
  · refine ⟨⟨hfresh, ?_, h.contexts⟩, .ok ()⟩
    intro f hf
    rcases List.mem_cons.mp hf with rfl | hf
    · exact h.frame
    · exact h.callers f hf

/-- A checked target of an aligned frame is never out of its code. -/
theorem WellPlaced.checkTarget {placed : List (Instr UInt32)} {i : Instr UInt32}
    (hplaced : m.frame.context.AssembledAs placed) (hi : i ∈ placed) {target : UInt32}
    (htarget : i.target? = some target) :
    m.checkTarget target = .ok target.toNat ∧
      ∀ f : Frame, f.context = m.frame.context → f.ip = target.toNat → f.Aligned := by
  obtain ⟨k, hk, hstart⟩ := hplaced.target hi htarget
  have hle : target.toNat ≤ m.frame.context.code.size := by
    rw [hstart]
    exact hplaced.startOf_le_size k
  constructor
  · unfold Machine.checkTarget
    rw [if_pos hle]
  · intro f hcontext hip
    exact ⟨placed, by rwa [hcontext], k, hk, hip.trans hstart⟩

variable [HostData Ω] {env : Env Ω}

/-! ## Section 3: Single instructions -/

/-- The outcome keeps the invariant, and it blames the code only with faults of which
    `fromHost` holds. -/
structure KeepsPlaced (fromHost : Fault → Prop) (o : Outcome Ω Unit) : Prop where
  placed : WellPlaced o.2
  blames : ∀ f, o.1 = .error f → f.isMisread = true → fromHost f

omit [HostData Ω] in
/-- Legible outcomes do not blame the code at all. -/
theorem KeepsPlaced.of_legible {fromHost : Fault → Prop} {o : Outcome Ω Unit}
    (h : WellPlaced o.2) (hr : Legible o.1) : KeepsPlaced fromHost o where
  placed := h
  blames := by
    intro f hf hmisread
    rw [hr f hf] at hmisread
    cases hmisread

/-- The fault was raised by the host program that a target calls, run where `EXTCALL` was
    executed; `m'` is the machine as that program left it. -/
def RaisedByHost (env : Env Ω) (m : Machine Ω) (target : Target) (f : Fault) (m' : Machine Ω) :
    Prop :=
  ∃ name program journal,
    (match target with
      | .named text => Except.ok text
      | .register index => m.stringIn "EXTCALL" index) = .ok name ∧
    env.interops.find? name = some program ∧
    HostProgram.run env program { m with journal } = (.error f, m')

/-- A host function keeps the invariant. -/
theorem WellPlaced.run (henv : env.WellAssembled) (h : WellPlaced m)
    (hrun : m.status = .running) {name : String} {program : HostProgram Ω Verdict}
    (hprogram : env.interops.find? name = some program) : WellPlaced (program.run env m).2 := by
  have hstays := program.run_staysPut env hrun
  refine ⟨h.frame.of_eq hstays.context hstays.ip, ?_, ?_⟩
  · rw [hstays.callers]
    exact h.callers
  · exact program.run_contextsIn henv.registry (henv.interops name program hprogram) hrun
      h.frame.wellAssembled h.contexts

/-- `EXTCALL` blames the code only if the host function does. -/
theorem WellPlaced.callHost (henv : env.WellAssembled) (h : WellPlaced m)
    (hrun : m.status = .running) (target : Target) :
    KeepsPlaced (fun f => RaisedByHost env m target f (m.callHost env "EXTCALL" target).2)
      (m.callHost env "EXTCALL" target) := by
  unfold Machine.callHost
  dsimp only
  split
  · next f hname =>
    apply KeepsPlaced.of_legible h
    cases target with
    | named name => cases hname
    | register index => exact .error (m.legible_stringIn _ index f hname)
  · next name hname =>
    split
    · exact .of_legible h (.error rfl)
    · next program hprogram =>
      -- the call may be noted first
      have hnoted : ∃ journal,
          (if env.config.trace then m.note .debug s!"extcall {name}" else m) =
            { m with journal } := by
        split
        · exact ⟨_, rfl⟩
        · exact ⟨m.journal, rfl⟩
      obtain ⟨journal, hjournal⟩ := hnoted
      rw [hjournal]
      have h₁ : WellPlaced { m with journal } := ⟨h.frame, h.callers, h.contexts⟩
      have h₂ := h₁.run henv hrun hprogram
      split
      · next f m₂ hresult =>
        rw [hresult] at h₂
        refine ⟨h₂, ?_⟩
        intro g hg _
        cases hg
        exact ⟨name, program, journal, hname, hprogram, hresult⟩
      · next m₂ hresult =>
        rw [hresult] at h₂
        exact .of_legible h₂ (.ok ())
      · next m₂ hresult =>
        rw [hresult] at h₂
        exact .of_legible ⟨h₂.frame, h₂.callers, h₂.contexts⟩ (.ok ())
      · next m₂ hresult =>
        rw [hresult] at h₂
        exact .of_legible h₂ (.error rfl)

omit [HostData Ω] in
/-- `SWITCH` starts at the first instruction of an assembled context. -/
theorem WellPlaced.switchContext (h : WellPlaced m) (config : Config) (instruction : String)
    (handle : UInt8) (fromHost : Fault → Prop) :
    KeepsPlaced fromHost (m.switchContext config instruction handle) := by
  have hread : Legible (do (m.heap.asContext (← m.register handle) instruction) :
      Except Fault Context) :=
    (m.legible_register handle).bind fun v => m.heap.legible_asContext v instruction
  unfold Machine.switchContext
  split
  · next f hf => exact .of_legible h (.error (hread f hf))
  · next c hc =>
    obtain ⟨v, -, hcontext⟩ := Except.bind_eq_ok.mp hc
    have hassembled : c.WellAssembled := h.contexts.asContext hcontext
    have hnoted : ∀ text, WellPlaced (m.note .debug text) := fun text =>
      ⟨h.frame, h.callers, h.contexts⟩
    dsimp only
    split
    · next f hf => exact .of_legible (hnoted _) (.error (config.legible_checkContext c f hf))
    · have henter := (hnoted s!"switch {m.frame.context.name} -> {c.name}").enter
        (hassembled.aligned_fresh config)
      exact .of_legible henter.1 henter.2

/-- Every instruction of an assembled context keeps the invariant. -/
theorem WellPlaced.exec (henv : env.WellAssembled) (h : WellPlaced m)
    (hrun : m.status = .running) {placed : List (Instr UInt32)}
    (hplaced : m.frame.context.AssembledAs placed) {i : Instr UInt32} (hi : i ∈ placed) :
    KeepsPlaced (fun f => ∃ target, i = ⟨.extCall, (target, ())⟩ ∧
      RaisedByHost env m target f (m.exec env i).2) (m.exec env i) := by
  -- every target leads to an instruction, and every other context starts with one
  cases exec_effect henv.registry m i with
  | harmless ho => exact .of_legible (h.of_harmless ho) ho.legible
  | jumps htarget ho =>
    obtain ⟨hcheck, haligned⟩ := WellPlaced.checkTarget hplaced hi htarget
    rw [ho]
    unfold jump
    rw [hcheck]
    exact .of_legible ⟨haligned _ rfl rfl, h.callers, h.contexts⟩ (.ok ())
  | @calls target htarget ho =>
    obtain ⟨hcheck, haligned⟩ := WellPlaced.checkTarget hplaced hi htarget
    have hfresh : (Frame.fresh env.config m.frame.context target.toNat).Aligned :=
      haligned _ rfl rfl
    rw [ho]
    unfold callTarget
    rw [hcheck]
    exact .of_legible (h.enter hfresh).1 (h.enter hfresh).2
  | returns ho =>
    rw [ho]
    exact .of_legible h.leave (.ok ())
  | switches ho =>
    rw [ho]
    exact h.switchContext env.config "SWITCH" _ _
  | @callsHost target hinstr ho =>
    rw [ho]
    have hhost := h.callHost henv hrun target
    exact ⟨hhost.placed, fun f hf hm => ⟨target, hinstr, hhost.blames f hf hm⟩⟩

/-! ## Section 4: Steps and runs -/

/-- A step of an aligned machine keeps the invariant.  If it blames the code, then it was
    at an `EXTCALL` whose host program did. -/
theorem WellPlaced.step (henv : env.WellAssembled) (h : WellPlaced m)
    (hrun : m.status = .running) :
    KeepsPlaced (fun f => ∃ target m₁,
      fetch env { m with offset := m.frame.ip } = (.ok ⟨.extCall, (target, ())⟩, m₁) ∧
        RaisedByHost env m₁ target f (m.step env).2) (m.step env) := by
  obtain ⟨placed, hplaced, k, hk, hip⟩ := h.frame
  rcases Nat.lt_or_eq_of_le hk with hlt | rfl
  · -- the next instruction, with what is placed before it and behind it
    let i := placed[k]
    have hcode : m.frame.context.code.toList =
        (placed.take k ++ i :: placed.drop (k + 1)).flatMap Instr.encode := by
      rw [hplaced.code]
      conv_lhs => rw [← List.take_append_drop k placed, List.drop_eq_getElem_cons hlt]
    have hfetch := m.fetch_of_placed env (placed.take k) i (placed.drop (k + 1)) hcode
      hplaced.size_lt hip
    have hstep := m.step_of_placed env (placed.take k) i (placed.drop (k + 1)) hcode
      hplaced.size_lt hip
    have hnext : placedLength (placed.take k ++ [i]) = startOf placed (k + 1) := by
      unfold placedLength startOf
      rw [List.take_add_one, List.getElem?_eq_getElem hlt, Option.toList_some]
    have hfetched : WellPlaced (m.fetched env i.op (placedLength (placed.take k ++ [i]))) :=
      ⟨⟨placed, hplaced, k + 1, hlt, hnext⟩, h.callers, h.contexts⟩
    have hexec := hfetched.exec henv hrun hplaced (List.getElem_mem hlt)
    rw [hstep]
    refine ⟨hexec.placed, ?_⟩
    intro f hf hmisread
    obtain ⟨target, hi, hraised⟩ := hexec.blames f hf hmisread
    have hcall : i = ⟨.extCall, (target, ())⟩ := hi
    exact ⟨target, _, by rw [hfetch, hcall], hraised⟩
  · -- at the end of the code, the frame is left
    have hend : m.frame.ip = m.frame.context.code.size := hip.trans hplaced.startOf_length
    rw [m.step_of_atEnd (Nat.le_of_eq hend.symm)]
    exact .of_legible h.leave (.ok ())

/-- So do rows of any length, whose steps may have other host functions. -/
theorem StaysAbove.wellPlaced {tables : List (InteropTable Ω)}
    (htables : ∀ t ∈ tables, (env.withInterops t).WellAssembled) (h : WellPlaced m)
    {m' : Machine Ω} (hrow : StaysAbove 0 m (tables.map env.withInterops) m') : WellPlaced m' := by
  induction tables generalizing m' with
  | nil =>
    cases hrow
    exact h
  | cons t tables ih =>
    obtain ⟨ht, hrest⟩ := List.forall_mem_cons.mp htables
    cases hrow with
    | tail hrow hrun hstep _ =>
      have hnext := ((ih hrest hrow).step ht hrun).placed
      rwa [hstep] at hnext

omit [HostData Ω] in
/-- Runs start at the first instruction of the entry script, or at that of a method. -/
theorem wellPlaced_requestRun (henv : env.WellAssembled)
    (hheap : m.heap.ContextsIn Context.WellAssembled) {method : Option String} {m' : Machine Ω}
    (hstart : m.requestRun env method = (.ok (), m')) : WellPlaced m' := by
  have hrequests := m.requests env method
  rw [hstart] at hrequests
  cases hrequests with
  | @starts entry _ hentry =>
    obtain ⟨placed, hplaced⟩ := henv.entry.exists_assembledAs
    refine ⟨⟨placed, hplaced, hplaced.entry hentry⟩, ?_, hheap⟩
    intro f hf
    cases hf

omit [HostData Ω] in
/-- An aligned frame lies inside its code. -/
theorem WellPlaced.legible_checkStart (h : WellPlaced m) : Legible (m.checkStart env) := by
  obtain ⟨placed, hplaced, k, hk, hip⟩ := h.frame
  have hle : m.frame.ip ≤ m.frame.context.code.size := by
    rw [hip]
    exact hplaced.startOf_le_size k
  apply (env.config.legible_checkContext m.frame.context).bind
  intro _
  rw [if_neg (Nat.not_lt.mpr hle)]
  exact .ok _

/-- A run that ends with a fault that blames the code got it from one of its steps. -/
theorem endsAfter_of_misread {hosts : Nat → InteropTable Ω} {m₁ m' : Machine Ω}
    {method : Option String} {fuel : Nat} {f : Fault}
    (hstart : m.requestRun env method = (.ok (), m₁)) (hlegible : Legible (m₁.checkStart env))
    (hrun : m.runFromWith env hosts fuel method = some (.error f, m'))
    (hmisread : f.isMisread = true) : ∃ n m₂, EndsAfter env hosts m₁ n (.error f, m₂) := by
  unfold runFromWith at hrun
  rw [hstart] at hrun
  dsimp only at hrun
  split at hrun
  · next g hg =>
    -- the check before the first step does not blame the code
    cases hrun
    rw [hlegible f hg] at hmisread
    cases hmisread
  · obtain ⟨⟨r, m₂⟩, hsteps, hfinish⟩ := Option.map_eq_some_iff.mp hrun
    cases r with
    | ok _ => cases hfinish
    | error g =>
      cases hfinish
      obtain ⟨n, -, hends⟩ := stepsWith_eq_some_iff.mp hsteps
      exact ⟨n, m₂, hends⟩

/-- The step behind a row that blames the code calls a host function which does. -/
theorem WellPlaced.exists_raised {hosts : Nat → InteropTable Ω}
    (hhosts : ∀ k, (env.withInterops (hosts k)).WellAssembled) (h : WellPlaced m) {n : Nat}
    {m' : Machine Ω} {f : Fault} (hends : EndsAfter env hosts m n (.error f, m'))
    (hmisread : f.isMisread = true) :
    ∃ m₁ target m₂, StaysAbove 0 m ((upTo hosts n).map env.withInterops) m₁ ∧
      fetch (env.withInterops (hosts n)) { m₁ with offset := m₁.frame.ip } =
        (.ok ⟨.extCall, (target, ())⟩, m₂) ∧
      RaisedByHost (env.withInterops (hosts n)) m₂ target f m' := by
  cases hends with
  | @faults m₁ _ _ hrow hrun hstep =>
    have htables := forall_upTo (P := fun t => (env.withInterops t).WellAssembled) hhosts n
    have h₁ : WellPlaced m₁ := StaysAbove.wellPlaced htables h hrow
    have hnext := h₁.step (hhosts n) hrun
    rw [hstep] at hnext
    obtain ⟨target, m₂, hfetch, hraised⟩ := hnext.blames f rfl hmisread
    exact ⟨m₁, target, m₂, hrow, hfetch, hraised⟩

end Machine

/-- **Assembled code is never misread.** Let the entry script and all registered contexts
    be assembled from sources whose jumps and calls name labels, and let host functions
    and the heap supply handles of such contexts only.  Host functions may remember earlier
    calls, and so be others at each step.

    In a run of the entry script, from its start or from a public method, after any number of
    steps, every frame stands before an instruction of its own context or at the end of its
    code; this holds after a faulting step, too.  A fault that blames the code can only be one
    that a host function made up.

    The last two parts say the same of host functions that do not remember. -/
theorem assembled_code_never_misread {Ω : Type} [HostData Ω] (env : Env Ω)
    (henv : env.WellAssembled) (m₀ m₁ : Machine Ω)
    (hheap : m₀.heap.ContextsIn Context.WellAssembled) (method : Option String)
    (hstart : m₀.requestRun env method = (.ok (), m₁)) :
    (∀ tables : List (InteropTable Ω), (∀ t ∈ tables, (env.withInterops t).WellAssembled) →
      ∀ m, Machine.StaysAbove 0 m₁ (tables.map env.withInterops) m →
        (m.frame.Aligned ∧ ∀ f ∈ m.callers, f.Aligned) ∧
        ∀ t, (env.withInterops t).WellAssembled → m.status = .running →
          ∀ f m', m.step (env.withInterops t) = (.error f, m') →
            (m'.frame.Aligned ∧ ∀ g ∈ m'.callers, g.Aligned) ∧
            (f.isMisread = true → ∃ target m₂,
              Machine.fetch (env.withInterops t) { m with offset := m.frame.ip } =
                (.ok ⟨.extCall, (target, ())⟩, m₂) ∧
              Machine.RaisedByHost (env.withInterops t) m₂ target f m')) ∧
    (∀ hosts : Nat → InteropTable Ω, (∀ k, (env.withInterops (hosts k)).WellAssembled) →
      ∀ fuel f m', m₀.runFromWith env hosts fuel method = some (.error f, m') →
        f.isMisread = true →
        ∃ n m target m₂ m₃, Machine.StaysAbove 0 m₁ ((upTo hosts n).map env.withInterops) m ∧
          Machine.fetch (env.withInterops (hosts n)) { m with offset := m.frame.ip } =
            (.ok ⟨.extCall, (target, ())⟩, m₂) ∧
          Machine.RaisedByHost (env.withInterops (hosts n)) m₂ target f m₃) ∧
    (∀ m, Machine.Reaches env m₁ m →
      (m.frame.Aligned ∧ ∀ f ∈ m.callers, f.Aligned) ∧
      (m.status = .running → ∀ f m', m.step env = (.error f, m') →
        (m'.frame.Aligned ∧ ∀ g ∈ m'.callers, g.Aligned) ∧
        (f.isMisread = true → ∃ target m₂,
          Machine.fetch env { m with offset := m.frame.ip } =
            (.ok ⟨.extCall, (target, ())⟩, m₂) ∧
          Machine.RaisedByHost env m₂ target f m'))) ∧
    ∀ fuel f m', m₀.runFrom env fuel method = some (.error f, m') → f.isMisread = true →
      ∃ m target m₂ m₃, Machine.Reaches env m₁ m ∧
        Machine.fetch env { m with offset := m.frame.ip } =
          (.ok ⟨.extCall, (target, ())⟩, m₂) ∧
        Machine.RaisedByHost env m₂ target f m₃ := by
  have h₁ : Machine.WellPlaced m₁ := Machine.wellPlaced_requestRun henv hheap hstart
  have hrows : ∀ tables : List (InteropTable Ω),
      (∀ t ∈ tables, (env.withInterops t).WellAssembled) →
      ∀ m, Machine.StaysAbove 0 m₁ (tables.map env.withInterops) m →
        (m.frame.Aligned ∧ ∀ f ∈ m.callers, f.Aligned) ∧
        ∀ t, (env.withInterops t).WellAssembled → m.status = .running →
          ∀ f m', m.step (env.withInterops t) = (.error f, m') →
            (m'.frame.Aligned ∧ ∀ g ∈ m'.callers, g.Aligned) ∧
            (f.isMisread = true → ∃ target m₂,
              Machine.fetch (env.withInterops t) { m with offset := m.frame.ip } =
                (.ok ⟨.extCall, (target, ())⟩, m₂) ∧
              Machine.RaisedByHost (env.withInterops t) m₂ target f m') := by
    intro tables htables m hrow
    have h := Machine.StaysAbove.wellPlaced htables h₁ hrow
    refine ⟨⟨h.frame, h.callers⟩, ?_⟩
    intro t ht hrun f m' hstep
    have hnext := h.step ht hrun
    rw [hstep] at hnext
    exact ⟨⟨hnext.placed.frame, hnext.placed.callers⟩, hnext.blames f rfl⟩
  refine ⟨hrows, ?remembering, ?reached, ?fixed⟩
  case remembering =>
    intro hosts hhosts fuel f m' hrun hmisread
    obtain ⟨n, m₃, hends⟩ :=
      Machine.endsAfter_of_misread hstart h₁.legible_checkStart hrun hmisread
    obtain ⟨m, target, m₂, hrow, hfetch, hraised⟩ := h₁.exists_raised hhosts hends hmisread
    exact ⟨n, m, target, m₂, m₃, hrow, hfetch, hraised⟩
  case reached =>
    intro m hreach
    obtain ⟨n, hrow⟩ := Machine.reaches_iff.mp hreach
    have htables := forall_upTo (P := fun t => (env.withInterops t).WellAssembled)
      (fun _ => henv) n
    rw [← env.map_upTo_same] at hrow
    obtain ⟨haligned, hfaults⟩ := hrows _ htables m hrow
    exact ⟨haligned, hfaults env.interops henv⟩
  case fixed =>
    intro fuel f m' hrun hmisread
    rw [← Machine.runFromWith_same] at hrun
    obtain ⟨n, m₃, hends⟩ :=
      Machine.endsAfter_of_misread hstart h₁.legible_checkStart hrun hmisread
    obtain ⟨m, target, m₂, hrow, hfetch, hraised⟩ :=
      h₁.exists_raised (fun _ => henv) hends hmisread
    rw [env.map_upTo_same] at hrow
    exact ⟨m, target, m₂, m₃, Machine.reaches_iff.mpr ⟨n, hrow⟩, hfetch, hraised⟩

/-- A run that calls a host function over and over, in a registry that holds the script
    itself.  The function may answer with another verdict at each call. -/
theorem endless_loop_never_misread :
    let source := "start:\nEXTCALL Tick\nJMP start"
    ∃ script, assemble source = .ok script ∧
      let c : Context := ⟨0, "main", script⟩
      let tick (verdict : Verdict) : InteropTable Empty := ⟨[("Tick", .reply verdict)]⟩
      let env : Env Empty := ⟨{}, c, ⟨[c]⟩, tick .resume⟩
      let m₀ : Machine Empty := .initial env.config c .empty
      env.WellAssembled ∧ m₀.heap.ContextsIn Context.WellAssembled ∧
        ∃ m₁, m₀.requestRun env none = (.ok (), m₁) ∧
          (∀ verdicts : List Verdict, ∀ m,
            Machine.StaysAbove 0 m₁ ((verdicts.map tick).map env.withInterops) m →
              m.frame.Aligned) ∧
          ∀ m, Machine.Reaches env m₁ m → m.frame.Aligned := by
  intro source
  have hassembles : (assemble source).toOption.isSome = true := by decide +kernel
  have hjumps : JumpsToLabels source := by decide +kernel
  cases h : assemble source with
  | error e =>
    rw [h] at hassembles
    cases hassembles
  | ok script =>
    refine ⟨script, rfl, ?_⟩
    intro c tick env m₀
    have hc : c.WellAssembled := ⟨source, h, hjumps⟩
    have htick : ∀ verdict, (env.withInterops (tick verdict)).WellAssembled := by
      intro verdict
      refine ⟨hc, ?_, ?_⟩
      · intro d hd
        cases List.mem_singleton.mp hd
        exact hc
      · intro name program hprogram
        obtain ⟨front, back, heq, -⟩ := List.lookup_eq_some_iff.mp hprogram
        have hmem : (name, program) ∈ (env.withInterops (tick verdict)).interops.bindings := by
          rw [heq]
          exact List.mem_append_right _ List.mem_cons_self
        cases List.mem_singleton.mp hmem
        trivial
    have henv : env.WellAssembled := htick .resume
    have hheap : m₀.heap.ContextsIn Context.WellAssembled := Heap.contextsIn_empty
    obtain ⟨hrows, -, hreached, -⟩ := assembled_code_never_misread env henv m₀ _ hheap none rfl
    refine ⟨henv, hheap, _, rfl, ?_, fun m hreach => (hreached m hreach).1.1⟩
    intro verdicts m hrow
    refine (hrows (verdicts.map tick) ?_ m hrow).1.1
    intro t ht
    obtain ⟨verdict, -, rfl⟩ := List.mem_map.mp ht
    exact htick verdict

end ContractVM
