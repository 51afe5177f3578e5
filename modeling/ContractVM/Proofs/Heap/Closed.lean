import ContractVM.Proofs.Heap.Sound
import ContractVM.Value.Sequence

/-! # Closed heaps

    References are handed out by the heap alone, so none of them dangles: what a value
    refers to is there.

    * **Values** that are computed refer to no struct, or to one that a value referred to
      that they were computed from.
    * **Heaps** stay closed under every operation whose operands live in them; they grow
      only, so that what lives in a heap lives in it for good.
    * **Refused puts** leave a closed heap alone, but for the struct that a none becomes:
      nothing leads back to it yet, so that only the nesting of the value can be at fault. -/

namespace ContractVM

variable {Ω α β : Type} {h h' : Heap Ω}

/-! ## Section 1: Values -/

/-- Is the struct in the heap that the value refers to, if it does? -/
def Value.LivesIn (h : Heap Ω) : Value → Prop
  | .struct r => r.index < h.structs.size
  | _ => True

theorem Value.LivesIn.mono {v : Value} (hv : v.LivesIn h)
    (hsize : h.structs.size ≤ h'.structs.size) : v.LivesIn h' := by
  cases v with
  | struct r => exact Nat.lt_of_lt_of_le hv hsize
  | _ => exact trivial

theorem Value.livesIn_of_type {v : Value} (hv : v.type ≠ .struct) : v.LivesIn h := by
  cases v with
  | struct r => exact absurd rfl hv
  | _ => exact trivial

/-- Does the computation yield nothing else than values with the property? -/
def Yields (P : α → Prop) (r : Except Fault α) : Prop :=
  ∀ a, r = .ok a → P a

namespace Yields

variable {P : α → Prop}

theorem ok {a : α} (ha : P a) : Yields P (.ok a) := by
  intro b hb
  cases hb
  exact ha

theorem error (f : Fault) : Yields P (.error f) := by
  intro b hb
  cases hb

/-- The last part of a computation decides what it yields. -/
theorem bind {r : Except Fault β} {g : β → Except Fault α}
    (hg : ∀ b, r = .ok b → Yields P (g b)) : Yields P (r >>= g) := by
  intro a ha
  obtain ⟨b, hb, hgb⟩ := Except.bind_eq_ok.mp ha
  exact hg b hb a hgb

theorem map {r : Except Fault β} {g : β → α} (hg : ∀ b, P (g b)) : Yields P (r.map g) := by
  cases r with
  | error f => exact .error f
  | ok b => exact .ok (hg b)

end Yields

namespace Value

variable (v w : Value) (instruction : String)

/-- A scalar can be a key. -/
theorem asKey_of_isScalar {key : Value} (hkey : key.isScalar = true) :
    key.asKey instruction = .ok () :=
  if_pos hkey

/-- A conversion yields a value of the type that was asked for. -/
theorem yields_cast (t : ValueType) : Yields (fun w => w.type = t) (v.cast t instruction) := by
  unfold cast
  split
  · exact .ok rfl
  · unfold toBool
    split
    · exact .map fun _ => rfl
    · exact .map fun _ => rfl
    · exact .ok rfl
    · exact .error _
  · unfold toNumber
    split <;> first | exact .ok rfl | exact .error _ | skip
    split
    · exact .ok rfl
    · exact .error _
  · unfold toText
    split <;> first | exact .ok rfl | exact .error _ | skip
    split
    · exact .ok rfl
    · exact .error _
  · unfold toBytes
    split <;> first | exact .ok rfl | exact .error _
  · unfold toTimestamp
    split
    · exact .ok rfl
    · split
      · exact .ok rfl
      · exact .error _
    · exact .error _
  · unfold toEnum
    split
    · exact .ok rfl
    · split
      · exact .ok rfl
      · exact .error _
    · exact .error _
  · split
    · next htype => exact .ok htype
    · exact .error _
  · split
    · next htype => exact .ok htype
    · exact .error _

/-- It makes no reference up: a struct converts to itself only. -/
theorem livesIn_of_cast {t : ValueType} (hv : v.LivesIn h) :
    Yields (LivesIn h) (v.cast t instruction) := by
  intro w hw
  have htype : w.type = t := v.yields_cast instruction t w hw
  by_cases hstruct : t = .struct
  · subst hstruct
    unfold cast at hw
    dsimp only at hw
    split at hw
    · cases hw
      exact hv
    · cases hw
  · apply livesIn_of_type
    rw [htype]
    exact hstruct

theorem livesIn_of_cat : Yields (LivesIn h) (v.cat w instruction) := by
  unfold cat
  split <;> first | exact .ok trivial | exact .error _

theorem livesIn_of_range (index length : Nat) :
    Yields (LivesIn h) (v.range index length instruction) := by
  unfold range
  dsimp only
  split
  · exact .error _
  · apply Yields.bind
    intro size _
    split
    · exact .error _
    · split
      · split
        · exact .ok trivial
        · exact .error _
      · exact .ok trivial
      · exact .error _

theorem livesIn_of_right (length : Nat) : Yields (LivesIn h) (v.right length instruction) := by
  apply Yields.bind
  intro size _
  split
  · exact .error _
  · exact v.livesIn_of_range instruction _ _

end Value

/-! ## Section 2: Structs -/

/-- A set entry is the only new one, whatever keys count as the same. -/
theorem Entries.value_of_mem_insert {same : Value → Value → Bool} {key value : Value}
    {entries : Entries} {e : Value × Value} (he : e ∈ insert same key value entries) :
    e ∈ entries ∨ e.2 = value := by
  induction entries with
  | nil =>
    rw [List.mem_singleton.mp he]
    exact .inr rfl
  | cons first rest ih =>
    obtain ⟨k, v⟩ := first
    simp only [insert] at he
    split at he
    · rcases List.mem_cons.mp he with rfl | hrest
      · exact .inr rfl
      · exact .inl (List.mem_cons_of_mem _ hrest)
    · rcases List.mem_cons.mp he with rfl | hrest
      · exact .inl List.mem_cons_self
      · rcases ih hrest with hold | hnew
        · exact .inl (List.mem_cons_of_mem _ hold)
        · exact .inr hnew

namespace Heap

/-- Do the values of all entries live in the heap? -/
def Closed (h : Heap Ω) : Prop :=
  ∀ r, ∀ e ∈ h.entries r, e.2.LivesIn h

/-- The heap has grown and is closed still. -/
structure ClosedOnto (h h' : Heap Ω) : Prop where
  closed : h'.Closed
  size_le : h.structs.size ≤ h'.structs.size

theorem Closed.onto (hc : h.Closed) : h.ClosedOnto h :=
  ⟨hc, Nat.le_refl _⟩

theorem closed_empty : (empty : Heap Ω).Closed := by
  intro r e he
  rw [entries_of_size_le (Nat.zero_le _)] at he
  cases he

/-- Objects do not matter. -/
theorem Closed.of_structs_eq (hc : h.Closed) (heq : h'.structs = h.structs) : h.ClosedOnto h' where
  closed r e he := by
    have hentries : h'.entries r = h.entries r := by
      unfold entries
      rw [heq]
    rw [hentries] at he
    exact (hc r e he).mono (Nat.le_of_eq (congrArg Array.size heq.symm))
  size_le := Nat.le_of_eq (congrArg Array.size heq.symm)

/-- What a closed heap links to is there. -/
theorem Closed.lt_of_links (hc : h.Closed) {r s : StructRef} (hlink : h.Links r s) :
    s.index < h.structs.size := by
  obtain ⟨e, he, hs⟩ := hlink
  have hlives := hc r e he
  rw [hs] at hlives
  exact hlives

/-- So is everything that can be reached from what is there. -/
theorem Closed.lt_of_reaches (hc : h.Closed) {r s : StructRef} (hr : r.index < h.structs.size)
    (hpath : Relation.ReflTransGen h.Links r s) : s.index < h.structs.size := by
  cases Relation.ReflTransGen.cases_tail hpath with
  | inl heq =>
    rw [heq]
    exact hr
  | inr hlast =>
    obtain ⟨u, -, hlink⟩ := hlast
    exact hc.lt_of_links hlink

theorem size_addStruct (h : Heap Ω) (es : Entries) :
    (h.addStruct es).2.structs.size = h.structs.size + 1 :=
  Array.size_push es

theorem size_setEntries (h : Heap Ω) (r : StructRef) (es : Entries) :
    (h.setEntries r es).structs.size = h.structs.size :=
  Array.size_setIfInBounds

theorem size_newStruct (h : Heap Ω) : h.newStruct.2.structs.size = h.structs.size + 1 :=
  h.size_addStruct []

theorem size_lt_newStruct (h : Heap Ω) : h.structs.size < h.newStruct.2.structs.size :=
  Nat.lt_of_lt_of_eq (Nat.lt_succ_self _) h.size_newStruct.symm

theorem Closed.newStruct (hc : h.Closed) :
    h.ClosedOnto h.newStruct.2 ∧ h.newStruct.1.LivesIn h.newStruct.2 := by
  refine ⟨⟨?_, Nat.le_of_lt h.size_lt_newStruct⟩, h.size_lt_newStruct⟩
  intro r e he
  change e ∈ (h.addStruct []).2.entries r at he
  rw [entries_addStruct] at he
  split at he
  · cases he
  · exact (hc r e he).mono (Nat.le_of_lt h.size_lt_newStruct)

theorem Closed.cast (hc : h.Closed) {v : Value} (hv : v.LivesIn h) {t : ValueType}
    {instruction : String} :
    Yields (fun p => h.ClosedOnto p.2 ∧ p.1.LivesIn p.2) (h.cast v t instruction) := by
  unfold Heap.cast
  split
  · exact .ok hc.newStruct
  · apply Yields.bind
    intro w hw
    exact .ok ⟨hc.onto, v.livesIn_of_cast instruction hv w hw⟩

section HostData

variable [HostData Ω]

theorem Closed.insertEntry (hc : h.Closed) (r : StructRef) (key : Value) {value : Value}
    (hvalue : value.LivesIn h) : h.ClosedOnto (h.insertEntry r key value) := by
  have hsize : (h.insertEntry r key value).structs.size = h.structs.size := h.size_setEntries r _
  refine ⟨?_, by omega⟩
  intro s e he
  apply Value.LivesIn.mono (h := h) ?_ (by omega)
  unfold Heap.insertEntry at he
  rw [entries_setEntries] at he
  split at he
  · rcases Entries.value_of_mem_insert he with hold | hnew
    · exact hc r e hold
    · rw [hnew]
      exact hvalue
  · exact hc s e he

theorem Closed.putEntry (hc : h.Closed) {r : StructRef} {key value : Value}
    {instruction : String} (hvalue : value.LivesIn h)
    (hput : h.putEntry r key value instruction = .ok h') : h.ClosedOnto h' := by
  unfold Heap.putEntry at hput
  split at hput
  · cases hput
    exact hc.insertEntry r key hvalue
  · cases hput
  · cases hput

/-- The container lives in the heap that a put leaves, whether or not it succeeds. -/
theorem Closed.put (hc : h.Closed) {container key value : Value} (instruction : String)
    (hcontainer : container.LivesIn h) (hvalue : value.LivesIn h) :
    h.ClosedOnto (h.put container key value instruction).heap ∧
      (h.put container key value instruction).container.LivesIn
        (h.put container key value instruction).heap := by
  unfold Heap.put
  split
  · exact ⟨hc.onto, hcontainer⟩
  · dsimp only
    -- a none becomes an empty struct first
    obtain ⟨honto, hlives⟩ :
        h.ClosedOnto (if container = .none then h.newStruct else (container, h)).2 ∧
        (if container = .none then h.newStruct else (container, h)).1.LivesIn
          (if container = .none then h.newStruct else (container, h)).2 := by
      split
      · exact hc.newStruct
      · exact ⟨hc.onto, hcontainer⟩
    split
    · exact ⟨honto, hlives⟩
    · split
      · exact ⟨honto, hlives⟩
      · next hput =>
        have hlast := honto.closed.putEntry (hvalue.mono honto.size_le) hput
        exact ⟨⟨hlast.closed, Nat.le_trans honto.size_le hlast.size_le⟩,
          hlives.mono hlast.size_le⟩

/-- An entry holds what lives in the heap. -/
theorem Closed.get (hc : h.Closed) (container key : Value) (instruction : String) :
    Yields (Value.LivesIn h) (h.get container key instruction) := by
  unfold Heap.get
  apply Yields.bind
  intro _ _
  split
  · exact .ok trivial
  · apply Yields.bind
    intro r _
    apply Yields.ok
    unfold Entries.get?
    cases hfind : (h.entries r).find? fun entry => h.sameKey entry.1 key with
    | none => exact trivial
    | some e => exact hc r e (List.mem_of_find?_eq_some hfind)

/-! ## Section 3: Copies -/

/-- A copy lives in the heap that copying leaves. -/
theorem Closed.deepCopy (hc : h.Closed) (v : Value) (instruction : String) :
    Yields (fun p => h.ClosedOnto p.2 ∧ p.1.LivesIn p.2) (h.deepCopy v instruction) := by
  unfold Heap.deepCopy
  split
  · next c hcopy =>
    have hstart : h.Copying [] h := ⟨.refl h, Nat.le_refl _, fun p hp => absurd hp List.not_mem_nil⟩
    have hcopies := copiesTo_copyWithin _ v hstart hcopy
    refine .ok ⟨⟨?closed, hcopies.copying.size_le⟩, ?result⟩
    case closed =>
      intro r e he
      by_cases hr : r.index < h.structs.size
      · rw [hcopies.copying.onto.old r hr] at he
        exact (hc r e he).mono hcopies.copying.size_le
      · -- a copy holds earlier copies only
        cases hvalue : e.2 with
        | struct s =>
          have hdown := hcopies.copying.onto.fresh r s (Nat.not_lt.mp hr) ⟨e, he, hvalue⟩
          have hthere : r.index < c.heap.structs.size := by
            apply Nat.lt_of_not_le
            intro hout
            rw [entries_of_size_le hout] at he
            cases he
          exact Nat.lt_trans hdown.2 hthere
        | _ => exact trivial
    case result =>
      cases hresult : c.result with
      | struct s => exact (hcopies.result s hresult).2
      | _ => exact trivial
  · exact .error _

end HostData

/-! ## Section 4: Refused puts -/

/-- A new struct has no entries. -/
theorem entries_newStruct (h : Heap Ω) (r : StructRef) :
    h.newStruct.2.entries r = h.entries r := by
  show (h.addStruct []).2.entries r = h.entries r
  rw [entries_addStruct]
  split
  · next hr => rw [entries_of_size_le (Nat.le_of_eq hr.symm)]
  · rfl

theorem links_newStruct (h : Heap Ω) : h.newStruct.2.Links = h.Links := by
  funext r s
  unfold Links
  rw [entries_newStruct]

theorem descends_newStruct (n : Nat) (r : StructRef) :
    h.newStruct.2.Descends n r ↔ h.Descends n r := by
  induction n generalizing r with
  | zero => exact Iff.rfl
  | succ n ih =>
    unfold Descends
    rw [links_newStruct]
    exact exists_congr fun s => and_congr_right fun _ => ih s

/-- Nothing leads to a new struct, so a value for it is refused for its nesting or not at all. -/
theorem Closed.nesting_newStruct (hc : h.Closed) {value : Value} (hvalue : value.LivesIn h) :
    (h.NestsBeyond (maxNesting - 1) value ∧
      h.newStruct.2.nesting ⟨h.structs.size⟩ value = .tooDeep) ∨
    (¬h.NestsBeyond (maxNesting - 1) value ∧
      ∃ seen, h.newStruct.2.nesting ⟨h.structs.size⟩ value = .clear seen) := by
  have hnests : h.newStruct.2.NestsBeyond (maxNesting - 1) value ↔
      h.NestsBeyond (maxNesting - 1) value :=
    exists_congr fun r => and_congr_right fun _ => descends_newStruct _ r
  cases hnesting : h.newStruct.2.nesting ⟨h.structs.size⟩ value with
  | clear seen =>
    have hshallow := not_nestsBeyond_of_nesting hnesting
    exact .inr ⟨fun hdeep => hshallow (hnests.mpr hdeep), seen, rfl⟩
  | tooDeep => exact .inl ⟨hnests.mp (nestsBeyond_of_nesting hnesting), rfl⟩
  | cyclic =>
    -- there would be a way to a struct that was not there before
    obtain ⟨r, rfl, hpath⟩ := reaches_of_nesting hnesting
    rw [links_newStruct] at hpath
    exact absurd (hc.lt_of_reaches hvalue hpath) (Nat.lt_irrefl _)

variable [HostData Ω]

/-- A none becomes a struct before the entry is put into it. -/
theorem put_none {key : Value} (hkey : key.isScalar = true) (value : Value)
    (instruction : String) :
    h.put .none key value instruction =
      match h.newStruct.2.putEntry ⟨h.structs.size⟩ key value instruction with
      | .error f => ⟨.error f, h.newStruct.1, h.newStruct.2⟩
      | .ok heap => ⟨.ok (), h.newStruct.1, heap⟩ := by
  have hasStruct : h.newStruct.1.asStruct instruction = .ok ⟨h.structs.size⟩ := rfl
  unfold Heap.put
  rw [Value.asKey_of_isScalar instruction hkey]
  cases hput : h.newStruct.2.putEntry ⟨h.structs.size⟩ key value instruction with
  | error f =>
    simp only [if_pos, hasStruct, hput]
  | ok heap =>
    simp only [if_pos, hasStruct, hput]

/-- Putting a value that is nested too deep makes a struct of a none all the same. -/
theorem Closed.put_of_nestsBeyond (hc : h.Closed) {key value : Value} (hkey : key.isScalar = true)
    (hvalue : value.LivesIn h) (hdeep : h.NestsBeyond (maxNesting - 1) value)
    (instruction : String) :
    h.put .none key value instruction =
      ⟨.error (.outOfRange instruction .nesting), h.newStruct.1, h.newStruct.2⟩ := by
  rcases hc.nesting_newStruct hvalue with ⟨-, hrefused⟩ | ⟨hshallow, -⟩
  · rw [put_none hkey]
    unfold Heap.putEntry
    rw [hrefused]
  · exact absurd hdeep hshallow

/-- Any other put that fails has changed nothing. -/
theorem Closed.put_error (hc : h.Closed) {container key value : Value} (hvalue : value.LivesIn h)
    {instruction : String} {f : Fault}
    (hfault : (h.put container key value instruction).result = .error f) :
    ((h.put container key value instruction).container = container ∧
      (h.put container key value instruction).heap = h) ∨
    (container = .none ∧ key.isScalar = true ∧ h.NestsBeyond (maxNesting - 1) value) := by
  by_cases hkey : key.isScalar = true
  · by_cases hnone : container = .none
    · subst hnone
      rcases hc.nesting_newStruct hvalue with ⟨hdeep, -⟩ | ⟨-, seen, hclear⟩
      · exact .inr ⟨rfl, hkey, hdeep⟩
      · -- the new struct takes the entry
        rw [put_none hkey] at hfault
        unfold Heap.putEntry at hfault
        rw [hclear] at hfault
        cases hfault
    · -- the container is as it was, and so is the heap unless the entry is accepted
      left
      unfold Heap.put at hfault ⊢
      rw [Value.asKey_of_isScalar instruction hkey] at hfault ⊢
      dsimp only at hfault ⊢
      rw [if_neg hnone] at hfault ⊢
      dsimp only at hfault ⊢
      cases hasStruct : container.asStruct instruction with
      | error f' => exact ⟨rfl, rfl⟩
      | ok r =>
        rw [hasStruct] at hfault
        dsimp only at hfault ⊢
        cases hput : h.putEntry r key value instruction with
        | error f' => exact ⟨rfl, rfl⟩
        | ok heap =>
          rw [hput] at hfault
          cases hfault
  · left
    have hasKey : key.asKey instruction = .error (key.mismatch instruction .scalarKey) :=
      if_neg hkey
    unfold Heap.put
    rw [hasKey]
    exact ⟨rfl, rfl⟩

end Heap

end ContractVM
