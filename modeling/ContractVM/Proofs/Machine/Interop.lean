import ContractVM.Proofs.Machine.Effect

/-! # What host programs cannot do

    A host program acts on a machine that is in the middle of a step.  It reaches
    neither the frames nor what the machine is doing: a run that it asks for is refused.
    The contexts that scripts meet afterwards are those they could meet before, and
    those that the program itself supplies. -/

namespace ContractVM

variable {Ω α : Type} {P : Context → Prop}

/-! ## Section 1: Supplied contexts -/

/-- Does the action bring only contexts with the property into the heap? -/
def HostAction.Supplies (P : Context → Prop) : HostAction Ω → Prop
  | .newObject x => x.ContextIn P
  | .setObject _ x => x.ContextIn P
  | _ => True

/-- Have all contexts that a host program sees the property? -/
structure View.ContextsIn (P : Context → Prop) (v : View Ω) : Prop where
  context : P v.context
  registry : ∀ c ∈ v.registry.contexts, P c
  heap : v.heap.ContextsIn P

/-- Does the program supply only contexts with the property, as long as it sees no
    others? -/
def HostProgram.Supplies (P : Context → Prop) : HostProgram Ω α → Prop
  | .reply _ => True
  | .fail _ => True
  | .look next => ∀ view : View Ω, view.ContextsIn P → (next view).Supplies P
  | .act action next => action.Supplies P ∧ ∀ answer, (next answer).Supplies P

/-! ## Section 2: Requests for a run -/

/-- The offset at which a run of the entry script starts, if there is the method. -/
def Env.entryOffset? (env : Env Ω) : Option String → Option Nat
  | none => some 0
  | some name => (env.entry.script.methodOffset? name).map UInt32.toNat

namespace Machine

variable {env : Env Ω} {m : Machine Ω}

/-- The outcomes of a request for a run. -/
inductive Requests (env : Env Ω) (method : Option String) (m : Machine Ω) :
    Outcome Ω Unit → Prop where
  /-- A run cannot be started while another one is going on. -/
  | nested (hrun : m.status = .running) : Requests env method m (.error .nestedRun, m)
  | starts {entry : Nat} (hidle : m.status ≠ .running)
    (hentry : env.entryOffset? method = some entry) :
    Requests env method m (.ok (), m.start env entry)
  /-- The method that is not there is a fault of its own. -/
  | unknown {name : String} (hidle : m.status ≠ .running) (hmethod : method = some name)
    (hentry : env.entryOffset? method = none) (journal : Array LogEntry) :
    Requests env method m (.error (.unknownLabel name),
      { m with status := .fault, faultSite := none, journal })

theorem requests (env : Env Ω) (method : Option String) (m : Machine Ω) :
    Requests env method m (m.requestRun env method) := by
  unfold requestRun
  split
  · next hrun => exact .nested hrun
  · next hidle =>
    cases method with
    | none => exact .starts hidle rfl
    | some name =>
      dsimp only
      split
      · next offset hfind => exact .starts hidle (Option.map_eq_some_iff.mpr ⟨offset, hfind, rfl⟩)
      · next hfind => exact .unknown hidle rfl (Option.map_eq_none_iff.mpr hfind) _

theorem requestRun_of_running (hrun : m.status = .running) (method : Option String) :
    m.requestRun env method = (.error .nestedRun, m) := by
  unfold requestRun
  rw [if_pos hrun]

/-- A machine that does not run starts at the entry offset. -/
theorem requestRun_of_entry (hidle : m.status ≠ .running) {method : Option String} {entry : Nat}
    (hentry : env.entryOffset? method = some entry) :
    m.requestRun env method = (.ok (), m.start env entry) := by
  have hrequests := m.requests env method
  generalize m.requestRun env method = o at hrequests ⊢
  cases hrequests with
  | nested hrun => exact absurd hrun hidle
  | starts _ hentry' =>
    cases hentry.symm.trans hentry'
    rfl
  | unknown _ _ hnone _ => cases hentry.symm.trans hnone

/-- A method that there is not changes the status, and nothing else but the journal. -/
theorem requestRun_of_unknown (hidle : m.status ≠ .running) {name : String}
    (hentry : env.entryOffset? (some name) = none) :
    ∃ journal, m.requestRun env (some name) = (.error (.unknownLabel name),
      { m with status := .fault, faultSite := none, journal }) := by
  have hrequests := m.requests env (some name)
  generalize m.requestRun env (some name) = o at hrequests ⊢
  cases hrequests with
  | nested hrun => exact absurd hrun hidle
  | starts _ hentry' => cases hentry.symm.trans hentry'
  | unknown _ hmethod _ journal =>
    cases hmethod
    exact ⟨journal, rfl⟩

/-! ## Section 3: Single actions -/

variable [HostData Ω]

/-- An action of a host program leaves the frames alone. -/
theorem perform_staysPut (env : Env Ω) (hrun : m.status = .running) (action : HostAction Ω) :
    StaysPut m (m.perform env action).2 := by
  cases action with
  | push v => exact (m.harmless_push (P := fun _ => True) env.config v).stays
  | pop => exact (m.harmless_pop (P := fun _ => True) HostProgram.instruction).stays
  | clearStack => exact ⟨rfl, rfl, rfl, rfl⟩
  | requestRun method =>
    -- refused, for the machine is running
    show StaysPut m (m.requestRun env method).2
    rw [requestRun_of_running hrun]
    exact .refl m
  | newStruct => exact ⟨rfl, rfl, rfl, rfl⟩
  | put container key value instruction => exact ⟨rfl, rfl, rfl, rfl⟩
  | insert r key value => exact ⟨rfl, rfl, rfl, rfl⟩
  | deepCopy v instruction =>
    unfold perform
    dsimp only
    split
    · exact ⟨rfl, rfl, rfl, rfl⟩
    · exact .refl m
  | cast v t instruction =>
    unfold perform
    dsimp only
    split
    · exact ⟨rfl, rfl, rfl, rfl⟩
    · exact .refl m
  | newObject x => exact ⟨rfl, rfl, rfl, rfl⟩
  | setObject r x => exact ⟨rfl, rfl, rfl, rfl⟩
  | note level text => exact ⟨rfl, rfl, rfl, rfl⟩

/-- An action brings no contexts into the heap but those that it supplies. -/
theorem perform_contextsIn (hrun : m.status = .running) {action : HostAction Ω}
    (ha : action.Supplies P) (hp : m.heap.ContextsIn P) :
    (m.perform env action).2.heap.ContextsIn P := by
  cases action with
  | push v => exact (m.harmless_push env.config v).contexts hp
  | pop => exact (m.harmless_pop HostProgram.instruction).contexts hp
  | clearStack => exact hp
  | requestRun method =>
    show (m.requestRun env method).2.heap.ContextsIn P
    rw [requestRun_of_running hrun]
    exact hp
  | newStruct => exact hp.addStruct []
  | put container key value instruction => exact hp.put container key value instruction
  | insert r key value => exact hp.setEntries r _
  | deepCopy v instruction =>
    unfold perform
    dsimp only
    split
    · next hcopy => exact hp.deepCopy hcopy
    · exact hp
  | cast v t instruction =>
    unfold perform
    dsimp only
    split
    · next hcast => exact hp.cast hcast
    · exact hp
  | newObject x => exact hp.addObject ha
  | setObject r x => exact hp.setObject r ha
  | note level text => exact hp

end Machine

/-! ## Section 4: Whole programs -/

variable [HostData Ω] {env : Env Ω}

/-- A host program leaves the frames alone, whatever it does. -/
theorem HostProgram.run_staysPut (env : Env Ω) (p : HostProgram Ω α) {m : Machine Ω}
    (hrun : m.status = .running) : Machine.StaysPut m (p.run env m).2 := by
  induction p generalizing m with
  | reply a => exact .refl m
  | fail f => exact .refl m
  | look next ih => exact ih (m.view env) hrun
  | act action next ih =>
    have hfirst := Machine.perform_staysPut env hrun action
    have hrun' : (m.perform env action).2.status = .running := hfirst.status.trans hrun
    exact hfirst.trans (ih (m.perform env action).1 hrun')

/-- A host program that supplies only contexts with a property, run where all contexts
    have it, leaves only such contexts in the heap. -/
theorem HostProgram.run_contextsIn (hregistry : ∀ c ∈ env.registry.contexts, P c)
    (p : HostProgram Ω α) (hsupplies : p.Supplies P) {m : Machine Ω} (hrun : m.status = .running)
    (hcontext : P m.frame.context) (hp : m.heap.ContextsIn P) :
    (p.run env m).2.heap.ContextsIn P := by
  induction p generalizing m with
  | reply a => exact hp
  | fail f => exact hp
  | look next ih =>
    -- what the program goes on with depends on what it sees here
    have hview : (m.view env).ContextsIn P := ⟨hcontext, hregistry, hp⟩
    exact ih (m.view env) (hsupplies (m.view env) hview) hrun hcontext hp
  | act action next ih =>
    obtain ⟨haction, hnext⟩ := hsupplies
    have hstays := Machine.perform_staysPut env hrun action
    have hcontext' : P (m.perform env action).2.frame.context := by
      rw [hstays.context]
      exact hcontext
    exact ih (m.perform env action).1 (hnext _) (hstays.status.trans hrun) hcontext'
      (Machine.perform_contextsIn hrun haction hp)

end ContractVM
