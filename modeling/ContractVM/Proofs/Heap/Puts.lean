import ContractVM.Command.Execute
import ContractVM.Proofs.Heap.Closed

/-! # Putting entries

    An entry is put into a struct if that neither closes a cycle nor makes a chain too long, in
    whatever heap, even one with cycles in it.

    * **The search** of the value can be run with a list of the structs that wait, one struct at a
      time.  It ends on every heap, since each struct waits with fewer levels than the one that
      holds it.
    * **The outcomes** of a put are listed once, with the container and the heap that each of them
      leaves.  All else is read off that list. -/

namespace ContractVM

open Relation

/-! ## Section 1: The search, one struct at a time -/

/-- The struct that the value refers to, if it does. -/
def Value.structs : Value → List StructRef
  | .struct r => [r]
  | _ => []

/-- The structs among the values, each with the levels that are left below it. -/
def waiting (levels : Nat) (values : List Value) : List (StructRef × Nat) :=
  values.flatMap fun v => v.structs.map fun r => (r, levels)

namespace Heap

variable {Ω : Type} {h : Heap Ω} {target : StructRef}

/-- The search of the waiting structs comes to an end, with the outcome.  The struct that waits
    first is taken, and the structs behind it wait in front of the others. -/
inductive SearchEnds (h : Heap Ω) (target : StructRef) :
    List (StructRef × Nat) → Searched → Nesting → Prop where
  | clear (seen : Searched) : SearchEnds h target [] seen (.clear seen)
  | cyclic (levels : Nat) (rest : List (StructRef × Nat)) (seen : Searched) :
    SearchEnds h target ((target, levels) :: rest) seen .cyclic
  | tooDeep {r : StructRef} (hne : r ≠ target) (rest : List (StructRef × Nat)) (seen : Searched) :
    SearchEnds h target ((r, 0) :: rest) seen .tooDeep
  /-- It was searched before with no more levels left. -/
  | skip {r : StructRef} {below level : Nat} {rest : List (StructRef × Nat)} {seen : Searched}
    {found : Nesting} (hne : r ≠ target) (hmem : (r, level) ∈ seen) (hle : level ≤ below + 1)
    (hrest : SearchEnds h target rest seen found) :
    SearchEnds h target ((r, below + 1) :: rest) seen found
  | enter {r : StructRef} {below : Nat} {rest : List (StructRef × Nat)} {seen : Searched}
    {found : Nesting} (hne : r ≠ target) (hnew : ∀ level, (r, level) ∈ seen → below + 1 < level)
    (hrest : SearchEnds h target
      (waiting below ((h.entries r).reverse.map Prod.snd) ++ rest) ((r, below + 1) :: seen) found) :
    SearchEnds h target ((r, below + 1) :: rest) seen found

/-- The outcome of the search of what waits behind something that was searched. -/
def GoesOn (h : Heap Ω) (target : StructRef) (rest : List (StructRef × Nat)) (found : Nesting) :
    Nesting → Prop
  | .clear seen => h.SearchEnds target rest seen found
  | first => found = first

/-- The structs among values are taken one after the other. -/
theorem searchEnds_searchValues {searchStruct : StructRef → Searched → Nesting} {levels : Nat}
    {found : Nesting}
    (hsearch : ∀ r seen rest, h.GoesOn target rest found (searchStruct r seen) →
      h.SearchEnds target ((r, levels) :: rest) seen found)
    (values : List Value) {seen : Searched} {rest : List (StructRef × Nat)}
    (hgoes : h.GoesOn target rest found (searchValues searchStruct values seen)) :
    h.SearchEnds target (waiting levels values ++ rest) seen found := by
  induction values generalizing seen with
  | nil => exact hgoes
  | cons v values ih =>
    cases v with
    | struct r =>
      apply hsearch
      simp only [searchValues] at hgoes
      cases hfirst : searchStruct r seen with
      | clear seen' =>
        rw [hfirst] at hgoes
        exact ih hgoes
      | cyclic =>
        rw [hfirst] at hgoes
        exact hgoes
      | tooDeep =>
        rw [hfirst] at hgoes
        exact hgoes
    | _ => exact ih hgoes

/-- A struct is searched with all structs behind it, before the others that wait. -/
theorem searchEnds_searchWithin {found : Nesting} (levels : Nat) (r : StructRef) (seen : Searched)
    (rest : List (StructRef × Nat))
    (hgoes : h.GoesOn target rest found (h.searchWithin target levels r seen)) :
    h.SearchEnds target ((r, levels) :: rest) seen found := by
  induction levels generalizing r seen rest with
  | zero =>
    unfold searchWithin at hgoes
    split at hgoes
    · next heq =>
      cases hgoes
      rw [heq]
      exact .cyclic 0 rest seen
    · next hne =>
      cases hgoes
      exact .tooDeep hne rest seen
  | succ below ih =>
    unfold searchWithin at hgoes
    split at hgoes
    · next heq =>
      cases hgoes
      rw [heq]
      exact .cyclic _ rest seen
    · next hne =>
      dsimp only at hgoes
      split at hgoes
      · next hmet =>
        obtain ⟨⟨s, level⟩, hmem, hs⟩ := List.any_eq_true.mp hmet
        obtain ⟨heq, hle⟩ := Bool.and_eq_true_iff.mp hs
        cases beq_iff_eq.mp heq
        exact .skip hne hmem (of_decide_eq_true hle) hgoes
      · next hmet =>
        refine .enter hne ?_ (searchEnds_searchValues ih _ hgoes)
        intro level hmem
        apply Nat.lt_of_not_le
        intro hle
        apply hmet
        exact List.any_eq_true.mpr ⟨(r, level), hmem, by simp [hle]⟩

/-- The search of a value for a struct comes to an end, and finds what `nesting` says. -/
theorem searchEnds_nesting (h : Heap Ω) (target : StructRef) (v : Value) :
    h.SearchEnds target (waiting (maxNesting - 1) [v]) [] (h.nesting target v) := by
  have hgoes : h.GoesOn target [] (h.nesting target v) (h.nesting target v) := by
    cases h.nesting target v with
    | clear seen => exact .clear seen
    | cyclic => rfl
    | tooDeep => rfl
  have hends := searchEnds_searchValues (searchEnds_searchWithin (maxNesting - 1)) [v] hgoes
  rw [List.append_nil] at hends
  exact hends

end Heap

/-! ## Section 2: Setting an entry -/

/-- Is the second row the first one with an entry set?  A key that is there keeps its place, and a
    new one comes last. -/
def Entries.Sets (key value : Value) (es fs : Entries) : Prop :=
  (∃ front old back, es = front ++ (key, old) :: back ∧ (∀ e ∈ front, e.1 ≠ key) ∧
    fs = front ++ (key, value) :: back) ∨
  (∀ e ∈ es, e.1 ≠ key) ∧ fs = es ++ [(key, value)]

theorem Entries.sets_insert {same : Value → Value → Bool} {key : Value}
    (hsame : ∀ k, same k key = decide (k = key)) (value : Value) (es : Entries) :
    Entries.Sets key value es (es.insert same key value) := by
  induction es with
  | nil => exact .inr ⟨fun e he => absurd he List.not_mem_nil, rfl⟩
  | cons e rest ih =>
    obtain ⟨k, v⟩ := e
    by_cases hk : k = key
    · subst hk
      left
      refine ⟨[], v, rest, rfl, fun e he => absurd he List.not_mem_nil, ?_⟩
      simp only [insert, hsame, decide_true, if_true, List.nil_append]
    · have hinsert : Entries.insert same key value ((k, v) :: rest) =
          (k, v) :: Entries.insert same key value rest := by
        simp only [insert, hsame, hk, decide_false, Bool.false_eq_true, if_false]
      rw [hinsert]
      rcases ih with ⟨front, old, back, hrest, hfront, hset⟩ | ⟨hnew, hset⟩
      · left
        refine ⟨(k, v) :: front, old, back, congrArg ((k, v) :: ·) hrest, ?_,
          congrArg ((k, v) :: ·) hset⟩
        exact List.forall_mem_cons.mpr ⟨hk, hfront⟩
      · right
        exact ⟨List.forall_mem_cons.mpr ⟨hk, hnew⟩, congrArg ((k, v) :: ·) hset⟩

/-! ## Section 3: The outcomes of a put -/

namespace Heap

variable {Ω : Type} [HostData Ω] {h : Heap Ω} {container key value : Value} {instruction : String}

/-- The container is open for entries: it refers to the struct `r`, or it is a none, in whose place
    comes the struct `r` that is new in `h'`. -/
inductive Opens (h : Heap Ω) : Value → StructRef → Heap Ω → Prop where
  | struct (r : StructRef) : Opens h (.struct r) r h
  | none : Opens h .none ⟨h.structs.size⟩ h.newStruct.2

/-- What may come of a put. -/
inductive Puts (h : Heap Ω) (container key value : Value) (instruction : String) :
    Put Ω → Prop where
  | badKey (hkey : key.isScalar = false) :
    Puts h container key value instruction
      ⟨.error (key.mismatch instruction .scalarKey), container, h⟩
  | badContainer (hkey : key.isScalar = true) (hnone : container.type ≠ .none)
    (hstruct : container.type ≠ .struct) :
    Puts h container key value instruction
      ⟨.error (container.mismatch instruction (.type .struct)), container, h⟩
  | cyclic {r : StructRef} {h' : Heap Ω} (hkey : key.isScalar = true)
    (hopens : h.Opens container r h') (hnesting : h'.nesting r value = .cyclic) :
    Puts h container key value instruction ⟨.error .cyclicStructure, .struct r, h'⟩
  | tooDeep {r : StructRef} {h' : Heap Ω} (hkey : key.isScalar = true)
    (hopens : h.Opens container r h') (hnesting : h'.nesting r value = .tooDeep) :
    Puts h container key value instruction
      ⟨.error (.outOfRange instruction .nesting), .struct r, h'⟩
  | stored {r : StructRef} {h' : Heap Ω} {seen : Searched} (hkey : key.isScalar = true)
    (hopens : h.Opens container r h') (hnesting : h'.nesting r value = .clear seen) :
    Puts h container key value instruction ⟨.ok (), .struct r, h'.insertEntry r key value⟩

/-- Once the container is open, it is the search that decides. -/
theorem puts_of_opens {r : StructRef} {h' : Heap Ω} (hkey : key.isScalar = true)
    (hopens : h.Opens container r h') :
    h.Puts container key value instruction
      (match h'.putEntry r key value instruction with
      | .error f => ⟨.error f, .struct r, h'⟩
      | .ok h => ⟨.ok (), .struct r, h⟩) := by
  unfold putEntry
  cases hnesting : h'.nesting r value with
  | clear seen => exact .stored hkey hopens hnesting
  | cyclic => exact .cyclic hkey hopens hnesting
  | tooDeep => exact .tooDeep hkey hopens hnesting

theorem puts_put (h : Heap Ω) (container key value : Value) (instruction : String) :
    h.Puts container key value instruction (h.put container key value instruction) := by
  by_cases hkey : key.isScalar = true
  · cases container with
    | none =>
      rw [put_none hkey]
      exact puts_of_opens hkey .none
    | struct r =>
      unfold put
      rw [Value.asKey_of_isScalar instruction hkey]
      exact puts_of_opens hkey (.struct r)
    | _ =>
      unfold put
      rw [Value.asKey_of_isScalar instruction hkey]
      exact .badContainer hkey ValueType.noConfusion ValueType.noConfusion
  · have hasKey : key.asKey instruction = .error (key.mismatch instruction .scalarKey) :=
      if_neg hkey
    unfold put
    rw [hasKey]
    exact .badKey (Bool.not_eq_true _ ▸ hkey)

/-! ## Section 4: Open containers -/

variable {r : StructRef} {h' : Heap Ω} (hopens : h.Opens container r h')

include hopens

omit [HostData Ω] in
theorem Opens.entries_eq (s : StructRef) : h'.entries s = h.entries s := by
  cases hopens with
  | struct => rfl
  | none => exact h.entries_newStruct s

omit [HostData Ω] in
theorem Opens.objects_eq : h'.objects = h.objects := by
  cases hopens with
  | struct => rfl
  | none => rfl

/-- The entry is set in the struct that is open. -/
theorem Opens.sets_insertEntry (hkey : key.isScalar = true) (value : Value)
    (hthere : r.index < h'.structs.size) :
    Entries.Sets key value (h.entries r) ((h'.insertEntry r key value).entries r) := by
  unfold insertEntry
  rw [entries_setEntries, if_pos ⟨rfl, hthere⟩, hopens.entries_eq]
  exact Entries.sets_insert (fun k => h'.sameKey_of_scalar k hkey) value _

/-- All other structs keep their entries. -/
theorem Opens.insertEntry_of_ne (key value : Value) {s : StructRef} (hs : s ≠ r) :
    (h'.insertEntry r key value).entries s = h.entries s := by
  unfold insertEntry
  rw [entries_setEntries, if_neg fun hboth => hs hboth.1.symm, hopens.entries_eq]

omit [HostData Ω] in
/-- An open container is found by the search if it can be reached from the value, and never if it
    is new. -/
theorem Opens.nesting_cyclic (hc : h.Closed) (hvalue : value.LivesIn h)
    (hnesting : h'.nesting r value = .cyclic) :
    container = .struct r ∧ h' = h ∧ ∃ s, value = .struct s ∧ ReflTransGen h.Links s r := by
  obtain ⟨s, rfl, hpath⟩ := reaches_of_nesting hnesting
  cases hopens with
  | struct => exact ⟨rfl, rfl, s, rfl, hpath⟩
  | none =>
    rw [links_newStruct] at hpath
    exact absurd (hc.lt_of_reaches hvalue hpath) (Nat.lt_irrefl _)

omit [HostData Ω] in
theorem Opens.nestsBeyond_iff (n : Nat) : h'.NestsBeyond n value ↔ h.NestsBeyond n value := by
  cases hopens with
  | struct => exact Iff.rfl
  | none => exact exists_congr fun r => and_congr_right fun _ => descends_newStruct n r

/-! ## Section 5: What is accepted, and what is left -/

omit hopens

/-- Entries are accepted for what they are, whatever cycles are in the heap. -/
theorem Closed.put_eq_ok_iff (hc : h.Closed) (hvalue : value.LivesIn h) :
    (h.put container key value instruction).result = .ok () ↔
      key.isScalar = true ∧ (container.type = .none ∨ container.type = .struct) ∧
      (∀ r s, container = .struct r → value = .struct s → ¬ReflTransGen h.Links s r) ∧
      ¬h.NestsBeyond (maxNesting - 1) value := by
  have hputs := h.puts_put container key value instruction
  generalize h.put container key value instruction = put at hputs ⊢
  constructor
  · intro hok
    cases hputs with
    | stored hkey hopens hnesting =>
      have hshallow := fun hdeep =>
        not_nestsBeyond_of_nesting hnesting ((hopens.nestsBeyond_iff _).mpr hdeep)
      cases hopens with
      | struct r =>
        refine ⟨hkey, .inr rfl, ?_, hshallow⟩
        rintro r s ⟨⟩ rfl
        exact not_reaches_of_nesting hnesting
      | none => exact ⟨hkey, .inl rfl, nofun, hshallow⟩
    | badKey => cases hok
    | badContainer => cases hok
    | cyclic => cases hok
    | tooDeep => cases hok
  · rintro ⟨hkey, htype, hapart, hshallow⟩
    cases hputs with
    | stored => rfl
    | badKey hbad =>
      rw [hbad] at hkey
      cases hkey
    | badContainer _ hnone hstruct => exact (htype.elim hnone hstruct).elim
    | cyclic _ hopens hnesting =>
      obtain ⟨hr, -, s, hs, hpath⟩ := hopens.nesting_cyclic hc hvalue hnesting
      exact absurd hpath (hapart _ s hr hs)
    | tooDeep _ hopens hnesting =>
      exact absurd ((hopens.nestsBeyond_iff _).mp (nestsBeyond_of_nesting hnesting)) hshallow

/-- An accepted entry is set in the container, and nothing else changes. -/
theorem put_of_ok (hcontainer : container.LivesIn h)
    (hok : (h.put container key value instruction).result = .ok ()) :
    ∃ r h', h.Opens container r h' ∧
      (h.put container key value instruction).container = .struct r ∧
      Entries.Sets key value (h.entries r)
        ((h.put container key value instruction).heap.entries r) ∧
      (∀ s, s ≠ r → (h.put container key value instruction).heap.entries s = h.entries s) ∧
      (h.put container key value instruction).heap.structs.size = h'.structs.size ∧
      (h.put container key value instruction).heap.objects = h.objects := by
  have hputs := h.puts_put container key value instruction
  generalize h.put container key value instruction = put at hputs hok ⊢
  cases hputs with
  | @stored r h' _ hkey hopens _ =>
    have hthere : r.index < h'.structs.size := by
      cases hopens with
      | struct r => exact hcontainer
      | none => exact h.size_lt_newStruct
    exact ⟨r, h', hopens, rfl, hopens.sets_insertEntry hkey value hthere,
      fun s hs => hopens.insertEntry_of_ne key value hs, h'.size_setEntries r _,
      hopens.objects_eq⟩
  | badKey => cases hok
  | badContainer => cases hok
  | cyclic => cases hok
  | tooDeep => cases hok

/-- A refused entry leaves everything as it was, but for the new struct that a none has become. -/
theorem put_of_error {f : Fault}
    (hfault : (h.put container key value instruction).result = .error f) :
    ((h.put container key value instruction).container = container ∧
      (h.put container key value instruction).heap = h) ∨
    (container = .none ∧ key.isScalar = true ∧
      (h.put container key value instruction).container = h.newStruct.1 ∧
      (h.put container key value instruction).heap = h.newStruct.2) := by
  have hputs := h.puts_put container key value instruction
  generalize h.put container key value instruction = put at hputs hfault ⊢
  have hopened : ∀ {r h'}, key.isScalar = true → h.Opens container r h' →
      (.struct r = container ∧ h' = h) ∨ (container = .none ∧ key.isScalar = true ∧
        .struct r = h.newStruct.1 ∧ h' = h.newStruct.2) := by
    intro r h' hkey hopens
    cases hopens with
    | struct => exact .inl ⟨rfl, rfl⟩
    | none => exact .inr ⟨rfl, hkey, rfl, rfl⟩
  cases hputs with
  | badKey => exact .inl ⟨rfl, rfl⟩
  | badContainer => exact .inl ⟨rfl, rfl⟩
  | cyclic hkey hopens => exact hopened hkey hopens
  | tooDeep hkey hopens => exact hopened hkey hopens
  | stored => cases hfault

/-- Each fault has its cause. -/
theorem Closed.fault_of_put (hc : h.Closed) (hvalue : value.LivesIn h) {f : Fault}
    (hfault : (h.put container key value instruction).result = .error f) :
    (f = key.mismatch instruction .scalarKey ∧ key.isScalar = false) ∨
    (f = container.mismatch instruction (.type .struct) ∧ key.isScalar = true ∧
      container.type ≠ .none ∧ container.type ≠ .struct) ∨
    (f = .cyclicStructure ∧ key.isScalar = true ∧
      ∃ r s, container = .struct r ∧ value = .struct s ∧ ReflTransGen h.Links s r) ∨
    (f = .outOfRange instruction .nesting ∧ key.isScalar = true ∧
      (container.type = .none ∨ container.type = .struct) ∧
      h.NestsBeyond (maxNesting - 1) value) := by
  have hputs := h.puts_put container key value instruction
  generalize h.put container key value instruction = put at hputs hfault
  cases hputs with
  | badKey hkey =>
    cases hfault
    exact .inl ⟨rfl, hkey⟩
  | badContainer hkey hnone hstruct =>
    cases hfault
    exact .inr (.inl ⟨rfl, hkey, hnone, hstruct⟩)
  | cyclic hkey hopens hnesting =>
    cases hfault
    obtain ⟨hr, -, s, hs, hpath⟩ := hopens.nesting_cyclic hc hvalue hnesting
    exact .inr (.inr (.inl ⟨rfl, hkey, _, s, hr, hs, hpath⟩))
  | tooDeep hkey hopens hnesting =>
    cases hfault
    have hdeep := (hopens.nestsBeyond_iff _).mp (nestsBeyond_of_nesting hnesting)
    have htype : container.type = .none ∨ container.type = .struct := by
      cases hopens with
      | struct => exact .inr rfl
      | none => exact .inl rfl
    exact .inr (.inr (.inr ⟨rfl, hkey, htype, hdeep⟩))
  | stored => cases hfault

end Heap

open Heap in
/-- **Puts take safe entries only, and change nothing else.**  Take any heap in which every
    reference to a struct leads somewhere, even one with cycles.

    The search of the value for the struct of the container comes to an end.  The entry is accepted
    just if the key is a scalar, the container is a none or a struct, no way leads from the value to
    that struct, and no chain of more than `maxNesting - 1` structs begins at the value.  Then the
    entry of the key is set in the struct of the container, or in the new struct that a none
    becomes, and all else is as it was.

    Otherwise the fault is that of the wrong type just if the key or the container has one; that
    of a cycle only if there is a way from the value to the container; that of nesting only if
    there is a chain that is too long.  Nothing has changed then, except that a none has become a
    new empty struct if the key was a scalar. -/
theorem puts_take_safe_entries_only {Ω : Type} [HostData Ω] {h : Heap Ω} (hc : h.Closed)
    {container key value : Value} (hcontainer : container.LivesIn h) (hvalue : value.LivesIn h)
    (instruction : String) :
    let put := h.put container key value instruction
    (∀ r h', h.Opens container r h' →
      h'.SearchEnds r (waiting (maxNesting - 1) [value]) [] (h'.nesting r value)) ∧
    (put.result = .ok () ↔
      key.isScalar = true ∧ (container.type = .none ∨ container.type = .struct) ∧
      (∀ r s, container = .struct r → value = .struct s → ¬ReflTransGen h.Links s r) ∧
      ¬h.NestsBeyond (maxNesting - 1) value) ∧
    (put.result = .ok () → ∃ r,
      ((container = .struct r ∧ put.heap.structs.size = h.structs.size) ∨
        (container = .none ∧ r = ⟨h.structs.size⟩ ∧
          put.heap.structs.size = h.structs.size + 1)) ∧
      put.container = .struct r ∧
      Entries.Sets key value (h.entries r) (put.heap.entries r) ∧
      (∀ s, s ≠ r → put.heap.entries s = h.entries s) ∧ put.heap.objects = h.objects) ∧
    ∀ f, put.result = .error f →
      ((∃ expected actual, f = .invalidCast instruction expected actual) ↔
        key.isScalar = false ∨ (container.type ≠ .none ∧ container.type ≠ .struct)) ∧
      (f = .cyclicStructure →
        ∃ r s, container = .struct r ∧ value = .struct s ∧ ReflTransGen h.Links s r) ∧
      (∀ reason, f = .outOfRange instruction reason →
        reason = .nesting ∧ h.NestsBeyond (maxNesting - 1) value) ∧
      (f = key.mismatch instruction .scalarKey ∨
        f = container.mismatch instruction (.type .struct) ∨ f = .cyclicStructure ∨
        f = .outOfRange instruction .nesting) ∧
      ((put.container = container ∧ put.heap = h) ∨
        (container = .none ∧ key.isScalar = true ∧ put.container = h.newStruct.1 ∧
          put.heap = h.newStruct.2)) := by
  intro put
  refine ⟨fun r h' _ => h'.searchEnds_nesting r value, hc.put_eq_ok_iff hvalue, ?stored, ?fault⟩
  case stored =>
    intro hok
    obtain ⟨r, h', hopens, hr, hset, hothers, hsize, hobjects⟩ := put_of_ok hcontainer hok
    refine ⟨r, ?_, hr, hset, hothers, hobjects⟩
    cases hopens with
    | struct => exact .inl ⟨rfl, hsize⟩
    | none => exact .inr ⟨rfl, rfl, hsize.trans h.size_newStruct⟩
  case fault =>
    intro f hfault
    have hleft := put_of_error hfault
    rcases hc.fault_of_put hvalue hfault with ⟨rfl, hkey⟩ | ⟨rfl, hkey, htype⟩ |
      ⟨rfl, hkey, hcycle⟩ | ⟨rfl, hkey, htype, hdeep⟩
    · exact ⟨iff_of_true ⟨_, _, rfl⟩ (.inl hkey), nofun, nofun, .inl rfl, hleft⟩
    · exact ⟨iff_of_true ⟨_, _, rfl⟩ (.inr htype), nofun, nofun, .inr (.inl rfl), hleft⟩
    · refine ⟨iff_of_false nofun ?_, fun _ => hcycle, nofun, .inr (.inr (.inl rfl)), hleft⟩
      rintro (hbad | ⟨-, hstruct⟩)
      · rw [hkey] at hbad
        cases hbad
      · obtain ⟨r, -, rfl, -⟩ := hcycle
        exact hstruct rfl
    · refine ⟨iff_of_false nofun ?_, nofun, ?_, .inr (.inr (.inr rfl)), hleft⟩
      · rintro (hbad | ⟨hnone, hstruct⟩)
        · rw [hkey] at hbad
          cases hbad
        · exact htype.elim hnone hstruct
      · rintro reason ⟨⟩
        exact ⟨rfl, hdeep⟩

/-- In a heap with a struct that holds itself, another struct takes an entry, but not that
    struct. -/
theorem cyclic_value_is_not_taken :
    let h : Heap Empty := ⟨#[[(.number 0, .struct ⟨0⟩)], []], #[]⟩
    h.Closed ∧ (h.put (.struct ⟨1⟩) (.number 0) (.bool true) "PUT").result = .ok () ∧
      (h.put (.struct ⟨1⟩) (.number 0) (.struct ⟨0⟩) "PUT").result ≠ .ok () := by
  intro h
  have hc : h.Closed := by
    rintro ⟨_ | _ | n⟩ e he
    · cases List.mem_singleton.mp he
      exact Nat.two_pos
    · cases he
    · cases he
  have hloop : ∀ n, h.Descends n ⟨0⟩ := by
    intro n
    induction n with
    | zero => exact trivial
    | succ n ih => exact ⟨⟨0⟩, ⟨_, List.mem_singleton_self _, rfl⟩, ih⟩
  have hcontainer : (Value.struct ⟨1⟩).LivesIn h := Nat.one_lt_two
  have hplain : (Value.bool true).LivesIn h := trivial
  have hcyclic : (Value.struct ⟨0⟩).LivesIn h := Nat.two_pos
  obtain ⟨-, haccepted, -⟩ :=
    @puts_take_safe_entries_only _ _ h hc (.struct ⟨1⟩) (.number 0) _ hcontainer hplain "PUT"
  obtain ⟨-, hrefused, -⟩ :=
    @puts_take_safe_entries_only _ _ h hc (.struct ⟨1⟩) (.number 0) _ hcontainer hcyclic "PUT"
  refine ⟨hc, haccepted.mpr ⟨rfl, .inr rfl, nofun, nofun⟩, fun hok => ?_⟩
  obtain ⟨-, -, -, hshallow⟩ := hrefused.mp hok
  exact hshallow ⟨⟨0⟩, rfl, hloop _⟩

end ContractVM
