import ContractVM.Command.Execute
import ContractVM.Proofs.Assembly.Closing
import ContractVM.Proofs.Machine.Aligned
import ContractVM.Proofs.Machine.Simulation

/-! # Running off the end of the code

    A frame that comes to the end of its code is left as by `RET`.  So a source can be closed
    by `RET` without a change to its runs.  The two scripts differ in length, but runs do not
    see this:

    * **Places**: frames go step by step through the same instructions, and only at the end
      the closed script has one more to read.
    * **Targets** of jumps and calls are labels of the source, which lie in both scripts.  With
      numeric targets the closed script would allow one target more.
    * **Sites** of faults lie before the `RET`, but for one: a method at the end of the code
      that is refused for lack of registers.  The place is the same, and the closed script
      knows its line. -/

namespace ContractVM

open Assembly

/-! ## Section 1: Contexts and places -/

/-- The context with `RET` behind its code. -/
def Context.closed (c : Context) (line : UInt32) : Context :=
  { c with script := c.script.closed line }

/-- The contexts are the same, or the second one is `e` closed where the first is `e`. -/
def Context.ClosedIn (e : Context) (line : UInt32) (c c' : Context) : Prop :=
  c = c' ∨ c = e ∧ c' = e.closed line

/-- The places are the same, or they are before the same instruction of `e` and of `e`
    closed.  At the end of `e`, the other one may be behind the `RET`, too. -/
inductive PlacesAlong (e : Context) (line : UInt32) (placed : List (Instr UInt32)) :
    Context × Nat → Context × Nat → Prop where
  | same (p : Context × Nat) : PlacesAlong e line placed p p
  | before {k : Nat} (h : k ≤ placed.length) :
    PlacesAlong e line placed (e, startOf placed k) (e.closed line, startOf placed k)
  | behind : PlacesAlong e line placed (e, e.code.size) (e.closed line, e.code.size + 1)

namespace Context

variable {e : Context} {line : UInt32}

theorem closedIn_refl (c : Context) : ClosedIn e line c c :=
  .inl rfl

theorem closedIn_closed : ClosedIn e line e (e.closed line) :=
  .inr ⟨rfl, rfl⟩

/-- A context is what it was, apart from its code and its lines. -/
theorem ClosedIn.pairing : Pairing (ClosedIn e line) where
  name := by
    rintro c c' (rfl | ⟨rfl, rfl⟩)
    · rfl
    · rfl
  same := by
    have hid : ∀ {c c'}, ClosedIn e line c c' → c.id = c'.id := by
      rintro c c' (rfl | ⟨rfl, rfl⟩)
      · rfl
      · rfl
    intro c c' d d' hc hd
    unfold Context.same
    rw [hid hc, hid hd]

theorem ClosedIn.checkContext_eq (config : Config) {c c' : Context} (h : ClosedIn e line c c') :
    config.checkContext c = config.checkContext c' := by
  rcases h with rfl | ⟨rfl, rfl⟩
  · rfl
  · rfl

theorem toList_code_closed :
    (e.closed line).code.toList = e.code.toList ++ (⟨.ret, ()⟩ : Instr UInt32).encode :=
  Array.toList_appendList

theorem size_code_closed : (e.closed line).code.size = e.code.size + 1 := by
  rw [← Array.length_toList, toList_code_closed, List.length_append, Array.length_toList]
  rfl

/-! ## Section 2: What is read -/

variable {placed : List (Instr UInt32)}

theorem AssembledAs.startOf_lt_size (h : e.AssembledAs placed) {k : Nat} {i : Instr UInt32}
    (hk : placed[k]? = some i) : startOf placed k < e.code.size := by
  have hnext := h.startOf_le_size (k + 1)
  have hpos := i.encodedLength_pos
  rw [startOf_succ hk, i.length_encode] at hnext
  omega

/-- Every instruction is read from its code, whatever comes behind the code. -/
theorem AssembledAs.read_eq (h : e.AssembledAs placed) {k : Nat} {i : Instr UInt32}
    (hk : placed[k]? = some i) {code : Array UInt8} {rest : List UInt8}
    (hcode : code.toList = e.code.toList ++ rest) :
    Reader.instr code (startOf placed k) = .ok (i, startOf placed (k + 1)) := by
  rw [h.code, flatMap_encode_split hk, List.append_assoc] at hcode
  rw [startOf_succ hk]
  exact Reader.reads_instr i (h.fits (List.mem_of_getElem? hk)) code _ _ hcode

/-- Behind the last instruction the closed code has a `RET`. -/
theorem read_ret_closed :
    Reader.instr (e.closed line).code e.code.size = .ok (⟨.ret, ()⟩, e.code.size + 1) := by
  have hfits : (⟨.ret, ()⟩ : Instr UInt32).Fits := Instr.fits_of_length _ (by decide)
  have hread := Reader.reads_instr ⟨.ret, ()⟩ hfits (e.closed line).code e.code.toList []
    (by rw [toList_code_closed, List.append_nil])
  rw [Array.length_toList] at hread
  exact hread

/-- A label of the source leads to the same instruction of both codes. -/
theorem AssembledAs.targetMatches (h : e.AssembledAs placed) {i : Instr UInt32}
    (hi : i ∈ placed) {target : UInt32} (htarget : i.target? = some target) :
    Machine.TargetMatches (PlacesAlong e line placed) e (e.closed line) target := by
  obtain ⟨k, hk, hstart⟩ := h.target hi htarget
  have hin : target.toNat ≤ e.code.size := by
    rw [hstart]
    exact h.startOf_le_size k
  refine .inside hin ?_ ?_
  · rw [size_code_closed]
    exact Nat.le_succ_of_le hin
  · rw [hstart]
    exact .before hk

end Context

variable {e : Context} {line : UInt32} {placed : List (Instr UInt32)}

/-- Instructions are read alike, and the end of the code is as good as a `RET`. -/
theorem PlacesAlong.reads (he : e.AssembledAs placed) {p p' : Context × Nat}
    (h : PlacesAlong e line placed p p') : ReadsMatch (PlacesAlong e line placed) p p' := by
  have hsize : (e.closed line).code.size = e.code.size + 1 := Context.size_code_closed
  cases h with
  | same => exact .of_code rfl rfl fun _ => .same _
  | @before k hk =>
    rcases Nat.lt_or_eq_of_le hk with hlt | rfl
    · have hget : placed[k]? = some placed[k] := List.getElem?_eq_getElem hlt
      have hin := he.startOf_lt_size hget
      refine .reads rfl hin ?_ (he.read_eq hget (List.append_nil _).symm)
        (he.read_eq hget Context.toList_code_closed) (.before hlt) ?_
      · show startOf placed k < (e.closed line).code.size
        omega
      · intro target htarget
        exact he.targetMatches (List.getElem_mem hlt) htarget
    · rw [he.startOf_length]
      have hbefore : e.code.size < (e.closed line).code.size := by omega
      exact .returns (Nat.le_refl _) hbefore Context.read_ret_closed .behind
  | behind => exact .ends (Nat.le_refl _) (Nat.le_of_eq hsize)

/-- Machines cannot tell an assembled context from the closed one. -/
theorem Context.AssembledAs.simulation (he : e.AssembledAs placed) (config : Config) :
    Simulation config (Context.ClosedIn e line) (PlacesAlong e line placed) where
  pairing := Context.ClosedIn.pairing
  check hc := hc.checkContext_eq config
  enter := by
    rintro c c' (rfl | ⟨rfl, rfl⟩)
    · exact .same _
    · exact .before (Nat.zero_le _)
  context := by
    intro p p' hp
    cases hp with
    | same => exact Context.closedIn_refl _
    | before => exact Context.closedIn_closed
    | behind => exact Context.closedIn_closed
  reads hp := hp.reads he

/-! ## Section 3: Sites -/

/-- Before the end of the code, the sites of both contexts are the same. -/
theorem Context.AssembledAs.siteAt_closed (he : e.AssembledAs placed) {offset : Nat}
    (hin : offset < e.code.size) : (e.closed line).siteAt offset = e.siteAt offset := by
  obtain ⟨source, -, hassemble, -⟩ := he
  have hline := lineFor_closed hassemble line hin
  unfold Context.siteAt
  exact congrArg (FaultSite.mk e.name offset) hline

theorem PlacesAlong.siteAt_eq (he : e.AssembledAs placed) {p p' : Context × Nat}
    (h : PlacesAlong e line placed p p') (hin : p.2 < p.1.code.size) :
    p.1.siteAt p.2 = p'.1.siteAt p'.2 := by
  cases h with
  | same => rfl
  | before => exact (he.siteAt_closed hin).symm
  | behind => exact absurd hin (Nat.lt_irrefl _)

/-- The sites of faults in runs from an offset of a context and of that context closed.  They
    are the same, but for the line if the context is refused at the end of its code. -/
def Config.SitesAgree (config : Config) (c : Context) (entry : Nat) (s s' : FaultSite) : Prop :=
  s = s' ∨ (entry = c.code.size ∧ (∃ f, config.checkContext c = .error f) ∧ s.SamePlace s')

/-! ## Section 4: Runs -/

/-- Runs of an assembled context and of the closed one end alike. -/
theorem Context.AssembledAs.runFromWith_closed {Ω : Type} [HostData Ω]
    (he : e.AssembledAs placed) {config : Config} {registry : Registry}
    {interops interops' : InteropTable Ω} (hinterops : interops.Matches (ClosedIn e line) interops')
    {m m' : Machine Ω} (hidle : m.status ≠ .running) (hidle' : m'.status ≠ .running)
    (hstack : m.stack = m'.stack) (hheap : m.heap.MatchesBy (ClosedIn e line) m'.heap)
    {hosts hosts' : Nat → InteropTable Ω}
    (hhosts : ∀ n, (hosts n).Matches (ClosedIn e line) (hosts' n)) {method : Option String}
    {entry : Nat}
    (hentry : (⟨config, e, registry, interops⟩ : Env Ω).entryOffset? method = some entry)
    (fuel : Nat) :
    Option.Rel (Machine.EndsMatch (ClosedIn e line) (config.SitesAgree e entry))
      (m.runFromWith ⟨config, e, registry, interops⟩ hosts fuel method)
      (m'.runFromWith ⟨config, e.closed line, registry, interops'⟩ hosts' fuel method) := by
  have henv : Env.Matches (ClosedIn e line) ⟨config, e, registry, interops⟩
      ⟨config, e.closed line, registry, interops'⟩ :=
    ⟨rfl, closedIn_closed, .refl closedIn_refl registry, hinterops⟩
  have hentry' : (⟨config, e.closed line, registry, interops'⟩ : Env Ω).entryOffset? method =
      some entry := by
    cases method with
    | none => exact hentry
    | some name => exact hentry
  obtain ⟨k, hk, hplace⟩ : ∃ k ≤ placed.length, entry = startOf placed k :=
    AssembledAs.entry he hentry
  have hin : entry ≤ e.code.size := by
    rw [hplace]
    exact he.startOf_le_size k
  have hin' : entry ≤ (e.closed line).code.size := by
    rw [size_code_closed]
    exact Nat.le_succ_of_le hin
  refine Machine.runFromWith_alike (he.simulation config) henv hhosts (fun _ => .inl rfl) ?sites
    hidle hidle' hstack hheap hentry hentry' hin hin' ?place ?barred fuel
  case sites =>
    intro p p' hp _ hbefore
    exact .inl (hp.siteAt_eq he hbefore)
  case place =>
    rw [hplace]
    exact .before hk
  case barred =>
    intro f hf
    rcases Nat.lt_or_eq_of_le hin with hlt | heq
    · exact .inl (he.siteAt_closed hlt).symm
    · exact .inr ⟨heq, ⟨f, hf⟩, rfl, rfl⟩

/-- **Running off the end is returning.** Let a source be assembled whose jumps and calls name
    labels.  It can be closed by a line with `RET` if there is room for one more byte of code.

    The two scripts have the same methods.  Take each of them as an unregistered entry script,
    with the same registered contexts, limits and stack, and with host functions that do the
    same as long as they see the same but for the entry script; they may remember earlier
    calls.  Then a run from the start or from a public method goes on for ever in both, or it
    ends after the same number of steps in both, with the same result, stack, registers and
    depth, in counterparts.  Faults are noted with the same site.  Only if a method at the end
    of the code is refused for lack of registers, the line may differ. -/
theorem running_off_is_returning {Ω : Type} [HostData Ω] {source : String} {script : Script}
    (hassemble : assemble source = .ok script) (hjumps : JumpsToLabels source) :
    ((∃ script', assemble (source ++ "\nRET") = .ok script') ↔
      script.code.size + 1 < UInt32.size) ∧
    ∀ script', assemble (source ++ "\nRET") = .ok script' →
      ∀ (config : Config) (registry : Registry) (name : String),
      let e := registry.unregistered name script
      let e' := registry.unregistered name script'
      let K : Context → Context → Prop := fun c c' => c = c' ∨ c = e ∧ c' = e'
      ∀ interops interops' : InteropTable Ω, interops.Matches K interops' →
      let env : Env Ω := ⟨config, e, registry, interops⟩
      let env' : Env Ω := ⟨config, e', registry, interops'⟩
      ∀ m m' : Machine Ω, m.status ≠ .running → m'.status ≠ .running → m.stack = m'.stack →
      m.heap.MatchesBy K m'.heap → ∀ method,
        env.entryOffset? method = env'.entryOffset? method ∧
        ∀ entry, env.entryOffset? method = some entry → ∀ fuel,
          (∀ hosts hosts' : Nat → InteropTable Ω, (∀ n, (hosts n).Matches K (hosts' n)) →
            Option.Rel (Machine.EndsMatch K (config.SitesAgree e entry))
              (m.runFromWith env hosts fuel method) (m'.runFromWith env' hosts' fuel method)) ∧
          Option.Rel (Machine.EndsMatch K (config.SitesAgree e entry))
            (m.runFrom env fuel method) (m'.runFrom env' fuel method) := by
  obtain ⟨line, hclosed⟩ := assemble_closed hassemble
  constructor
  · constructor
    · rintro ⟨script', hassemble'⟩
      exact ((hclosed script').mp hassemble').1
    · intro hroom
      exact ⟨script.closed line, (hclosed _).mpr ⟨hroom, rfl⟩⟩
  · intro script' hassemble' config registry name
    obtain ⟨-, rfl⟩ := (hclosed script').mp hassemble'
    intro e e' K interops interops' hinterops env env' m m' hidle hidle' hstack hheap method
    have hwell : e.WellAssembled := ⟨source, hassemble, hjumps⟩
    obtain ⟨placed, he⟩ := hwell.exists_assembledAs
    refine ⟨?methods, ?runs⟩
    case methods =>
      cases method with
      | none => rfl
      | some name => rfl
    case runs =>
      intro entry hentry fuel
      have hruns : ∀ hosts hosts' : Nat → InteropTable Ω, (∀ n, (hosts n).Matches K (hosts' n)) →
          Option.Rel (Machine.EndsMatch K (config.SitesAgree e entry))
            (m.runFromWith env hosts fuel method) (m'.runFromWith env' hosts' fuel method) :=
        fun _ _ hhosts => he.runFromWith_closed hinterops hidle hidle' hstack hheap hhosts hentry
          fuel
      refine ⟨hruns, ?_⟩
      have hsame := hruns _ _ fun _ => hinterops
      rwa [Machine.runFromWith_same, Machine.runFromWith_same] at hsame

/-- A method whose frames all run off the end: the one that it calls, and then its own. -/
theorem called_label_at_end :
    let source := "pub m:\nCALL rest\nrest:"
    ∃ script script', assemble source = .ok script ∧ assemble (source ++ "\nRET") = .ok script' ∧
      let env : Env Empty := ⟨{}, Registry.empty.unregistered "main" script, .empty, .empty⟩
      let env' : Env Empty := ⟨{}, Registry.empty.unregistered "main" script', .empty, .empty⟩
      let m : Machine Empty := .initial env.config env.entry .empty
      let m' : Machine Empty := .initial env'.config env'.entry .empty
      ∃ o o', m.invoke env 4 "m" = some o ∧ m'.invoke env' 4 "m" = some o' ∧
        o.1.toOption = some () ∧ o.1 = o'.1 ∧ o.2.depth = o'.2.depth ∧
        o.2.frame.registers = o'.2.frame.registers := by
  intro source
  have hmethod : ((assemble source).toOption.bind fun s => s.methodOffset? "m") = some 25 := by
    decide +kernel
  have hassembles' : (assemble (source ++ "\nRET")).toOption.isSome = true := by decide +kernel
  have hjumps : JumpsToLabels source := by decide +kernel
  have hresult : ((assemble source).toOption.bind fun s =>
      let env : Env Empty := ⟨{}, Registry.empty.unregistered "main" s, .empty, .empty⟩
      ((Machine.initial env.config env.entry .empty).invoke env 4 "m").map fun o =>
        o.1.toOption) = some (some ()) := by
    decide +kernel
  cases h : assemble source with
  | error e =>
    rw [h] at hmethod
    cases hmethod
  | ok script =>
    cases h' : assemble (source ++ "\nRET") with
    | error e =>
      rw [h'] at hassembles'
      cases hassembles'
    | ok script' =>
      rw [h] at hmethod hresult
      refine ⟨script, script', rfl, rfl, ?_⟩
      intro env env' m m'
      have hentry : env.entryOffset? (some "m") = some 25 :=
        congrArg (Option.map UInt32.toNat) hmethod
      have hinterops : ∀ K, env.interops.Matches K env'.interops := fun _ _ => .none
      have hends := ((running_off_is_returning h hjumps).2 script' h' {} .empty "main" _ _
        (hinterops _) m m' Status.noConfusion Status.noConfusion rfl
        (.refl (fun _ => .inl rfl) .empty) (some "m")).2
      have hboth := (hends 25 hentry 4).2
      obtain ⟨o, hrun, ho⟩ := Option.map_eq_some_iff.mp hresult
      have hrun₁ : m.runFrom env 4 (some "m") = some o := hrun
      rw [hrun₁] at hboth
      generalize hrun' : m'.runFrom env' 4 (some "m") = r' at hboth
      cases hboth with
      | some hmatch =>
        exact ⟨o, _, hrun, hrun', ho, hmatch.result, hmatch.depth, hmatch.registers⟩

/-- A method at the end of the code, refused for lack of registers: the sites differ. -/
theorem refused_method_at_end :
    let source := "pub m:"
    ∃ script script', assemble source = .ok script ∧ assemble (source ++ "\nRET") = .ok script' ∧
      JumpsToLabels source ∧
      let env : Env Empty :=
        ⟨{ registers := 31 }, Registry.empty.unregistered "main" script, .empty, .empty⟩
      let env' : Env Empty :=
        ⟨{ registers := 31 }, Registry.empty.unregistered "main" script', .empty, .empty⟩
      ((Machine.initial env.config env.entry .empty).invoke env 1 "m").bind
        (fun o => o.2.faultSite) = some ⟨"main", 25, none⟩ ∧
      ((Machine.initial env'.config env'.entry .empty).invoke env' 1 "m").bind
        (fun o => o.2.faultSite) = some ⟨"main", 25, some 2⟩ := by
  intro source
  have hjumps : JumpsToLabels source := by decide +kernel
  have hsite : ((assemble source).toOption.bind fun s =>
      let env : Env Empty :=
        ⟨{ registers := 31 }, Registry.empty.unregistered "main" s, .empty, .empty⟩
      ((Machine.initial env.config env.entry .empty).invoke env 1 "m").bind
        fun o => o.2.faultSite) = some ⟨"main", 25, none⟩ := by
    decide +kernel
  have hsite' : ((assemble (source ++ "\nRET")).toOption.bind fun s =>
      let env : Env Empty :=
        ⟨{ registers := 31 }, Registry.empty.unregistered "main" s, .empty, .empty⟩
      ((Machine.initial env.config env.entry .empty).invoke env 1 "m").bind
        fun o => o.2.faultSite) = some ⟨"main", 25, some 2⟩ := by
    decide +kernel
  cases h : assemble source with
  | error e =>
    rw [h] at hsite
    cases hsite
  | ok script =>
    cases h' : assemble (source ++ "\nRET") with
    | error e =>
      rw [h'] at hsite'
      cases hsite'
    | ok script' =>
      rw [h] at hsite
      rw [h'] at hsite'
      exact ⟨script, script', rfl, rfl, hjumps, hsite, hsite'⟩

end ContractVM
