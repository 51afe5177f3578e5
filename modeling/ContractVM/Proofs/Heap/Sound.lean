import ContractVM.Proofs.Heap.Change
import ContractVM.Proofs.Heap.Links

/-! # Sound heaps

    No struct holds itself, not even through others, and the keys of a struct are scalars
    that can be told apart.  Every checked operation keeps this:

    * **Put**: the key is a scalar, and the search has found no way back from the value.
    * **Copies** hold copies only, and each only those that were finished before it. -/

namespace ContractVM.Heap

open Relation

variable {Ω : Type} {h h' : Heap Ω}

/-! ## Section 1: Structs and entries -/

/-- No struct holds itself, directly or through others, and all structs have distinct
    scalar keys. -/
structure Sound (h : Heap Ω) : Prop where
  acyclic : ∀ r, ¬TransGen h.Links r r
  keyed : ∀ r, (h.entries r).Keyed

/-- A heap without structs is sound. -/
theorem sound_of_size_eq_zero (hsize : h.structs.size = 0) : h.Sound := by
  have hnone : ∀ r, h.entries r = [] := fun r => entries_of_size_le (by omega)
  constructor
  · intro r hcycle
    obtain ⟨s, hlink, -⟩ := TransGen.head'_iff.mp hcycle
    obtain ⟨e, he, -⟩ := hlink
    rw [hnone] at he
    cases he
  · intro r
    rw [hnone]
    exact Entries.keyed_nil

theorem Sound.of_entries_eq (hs : h.Sound) (heq : ∀ r, h'.entries r = h.entries r) :
    h'.Sound := by
  have hlinks : h'.Links = h.Links := by
    funext r s
    unfold Links
    rw [heq]
  constructor
  · rw [hlinks]
    exact hs.acyclic
  · intro r
    rw [heq]
    exact hs.keyed r

theorem Sound.addEmpty (hs : h.Sound) : (h.addStruct []).2.Sound := by
  apply hs.of_entries_eq
  intro r
  rw [entries_addStruct]
  split
  · next hr => rw [entries_of_size_le (Nat.le_of_eq hr.symm)]
  · rfl

section HostData

variable [HostData Ω]

/-- An entry with a scalar key keeps the keys of its struct apart, whatever its value is. -/
theorem keyed_insertEntry (hkeyed : ∀ s, (h.entries s).Keyed) {key : Value}
    (hkey : key.isScalar = true) (r : StructRef) (value : Value) (s : StructRef) :
    ((h.insertEntry r key value).entries s).Keyed := by
  have hsame : ∀ k, h.sameKey k key = decide (k = key) := fun k => h.sameKey_of_scalar k hkey
  unfold Heap.insertEntry
  rw [entries_setEntries]
  split
  · exact (hkeyed r).insert hsame hkey value
  · exact hkeyed s

/-- It closes no cycle, either, if its value does not lead back to the struct. -/
theorem Sound.insertEntry (hs : h.Sound) {r : StructRef} {key value : Value}
    (hkey : key.isScalar = true) (hvalue : ∀ s, value = .struct s → ¬ReflTransGen h.Links s r) :
    (h.insertEntry r key value).Sound := by
  have hsame : ∀ k, h.sameKey k key = decide (k = key) := fun k => h.sameKey_of_scalar k hkey
  refine ⟨?acyclic, keyed_insertEntry hs.keyed hkey r value⟩
  case acyclic =>
    apply acyclic_of_links (t := r) hs.acyclic
    rintro s u ⟨e, he, hu⟩
    unfold Heap.insertEntry at he
    rw [entries_setEntries] at he
    split at he
    · next hrs =>
      obtain ⟨rfl, -⟩ := hrs
      rcases Entries.mem_insert hsame he with hold | rfl
      · exact .inl ⟨e, hold, hu⟩
      · exact .inr ⟨rfl, hvalue u hu⟩
    · exact .inl ⟨e, he, hu⟩

theorem Sound.putEntry (hs : h.Sound) {r : StructRef} {key value : Value} {instruction : String}
    (hkey : key.isScalar = true) (hput : h.putEntry r key value instruction = .ok h') :
    h'.Sound := by
  unfold Heap.putEntry at hput
  split at hput
  · next seen hclear =>
    cases hput
    apply hs.insertEntry hkey
    rintro s rfl
    exact not_reaches_of_nesting hclear
  · cases hput
  · cases hput

theorem Sound.put (hs : h.Sound) (container key value : Value) (instruction : String) :
    (h.put container key value instruction).heap.Sound := by
  unfold Heap.put
  split
  · exact hs
  · next hasKey =>
    have hkey : key.isScalar = true := by
      unfold Value.asKey at hasKey
      split at hasKey
      · assumption
      · cases hasKey
    dsimp only
    -- a none becomes an empty struct first
    have hs' : (if container = .none then h.newStruct else (container, h)).2.Sound := by
      split
      · exact hs.addEmpty
      · exact hs
    split
    · exact hs'
    · split
      · exact hs'
      · next hput => exact hs'.putEntry hkey hput

end HostData

/-! ## Section 2: Copies -/

/-- The heap `h'` consists of `h` and copies behind it, which hold copies only, each those
    that were made before it. -/
structure CopiedOnto (h h' : Heap Ω) : Prop where
  old : ∀ r, r.index < h.structs.size → h'.entries r = h.entries r
  fresh : ∀ r s, h.structs.size ≤ r.index → h'.Links r s →
    h.structs.size ≤ s.index ∧ s.index < r.index
  keyed : (∀ r, (h.entries r).Keyed) → ∀ r, (h'.entries r).Keyed

/-- Is the struct a copy that was made behind the first heap? -/
def IsCopy (h h' : Heap Ω) (r : StructRef) : Prop :=
  h.structs.size ≤ r.index ∧ r.index < h'.structs.size

theorem CopiedOnto.refl (h : Heap Ω) : h.CopiedOnto h where
  old _ _ := rfl
  fresh r s hr := by
    rintro ⟨e, he, -⟩
    rw [entries_of_size_le hr] at he
    cases he
  keyed hk := hk

/-- Copies cannot close a cycle: each leads to earlier ones only. -/
theorem CopiedOnto.sound (hc : h.CopiedOnto h') (hs : h.Sound) : h'.Sound := by
  have hdown : ∀ r s, TransGen h'.Links r s → h.structs.size ≤ r.index →
      h.structs.size ≤ s.index ∧ s.index < r.index := by
    intro r s hpath hr
    induction hpath with
    | single hlink => exact hc.fresh _ _ hr hlink
    | tail _ hlink ih =>
      have hnext := hc.fresh _ _ ih.1 hlink
      exact ⟨hnext.1, Nat.lt_trans hnext.2 ih.2⟩
  -- a path that ends in the old heap has never left it
  have hold : ∀ r s, TransGen h'.Links r s → s.index < h.structs.size → TransGen h.Links r s := by
    intro r s hpath hsold
    induction hpath using TransGen.head_induction_on with
    | @single r hlink =>
      have hrold : r.index < h.structs.size := by
        apply Nat.lt_of_not_le
        intro hr
        exact absurd (hc.fresh _ _ hr hlink).1 (Nat.not_le.mpr hsold)
      unfold Links at hlink
      rw [hc.old r hrold] at hlink
      exact .single hlink
    | @head r u hlink hrest ih =>
      have hrold : r.index < h.structs.size := by
        apply Nat.lt_of_not_le
        intro hr
        have hu := (hc.fresh _ _ hr hlink).1
        exact absurd (hdown _ _ hrest hu).1 (Nat.not_le.mpr hsold)
      unfold Links at hlink
      rw [hc.old r hrold] at hlink
      exact .head hlink ih
  constructor
  · intro r hcycle
    by_cases hr : r.index < h.structs.size
    · exact hs.acyclic r (hold r r hcycle hr)
    · exact Nat.lt_irrefl _ (hdown r r hcycle (Nat.not_lt.mp hr)).2
  · exact hc.keyed hs.keyed

/-- A struct whose entries hold copies only is a copy, too. -/
theorem CopiedOnto.addStruct (hc : h.CopiedOnto h') (hsize : h.structs.size ≤ h'.structs.size)
    {es : Entries} (hcopies : ∀ e ∈ es, ∀ s, e.2 = .struct s → h.IsCopy h' s)
    (hkeyed : (∀ r, (h.entries r).Keyed) → es.Keyed) :
    h.CopiedOnto (h'.addStruct es).2 where
  old r hr := by
    rw [entries_addStruct, if_neg (by omega)]
    exact hc.old r hr
  fresh r s hr := by
    rintro ⟨e, he, hs⟩
    rw [entries_addStruct] at he
    split at he
    · next hlast =>
      rw [hlast]
      exact hcopies e he s hs
    · exact hc.fresh r s hr ⟨e, he, hs⟩
  keyed hk r := by
    rw [entries_addStruct]
    split
    · exact hkeyed hk
    · exact hc.keyed hk r

/-- Where copying stands: the copies are behind the heap it started from, and the table
    of copies names no other structs. -/
structure Copying (h : Heap Ω) (copies : Copies) (h' : Heap Ω) : Prop where
  onto : h.CopiedOnto h'
  size_le : h.structs.size ≤ h'.structs.size
  table : ∀ p ∈ copies, h.IsCopy h' p.2

/-- Copying has gone on to a result that holds no structs but copies. -/
structure CopiesTo {α : Type} (h h' : Heap Ω) (c : Copied Ω α) (structs : StructRef → Prop) :
    Prop where
  copying : h.Copying c.copies c.heap
  size_le : h'.structs.size ≤ c.heap.structs.size
  result : ∀ s, structs s → h.IsCopy c.heap s

theorem IsCopy.mono {r : StructRef} {h'' : Heap Ω} (hr : h.IsCopy h' r)
    (hsize : h'.structs.size ≤ h''.structs.size) : h.IsCopy h'' r :=
  ⟨hr.1, Nat.lt_of_lt_of_le hr.2 hsize⟩

/-- The entries of a copy have the keys of the original, and hold copies if their values
    were copied. -/
theorem copiesTo_copyEntries
    {copyValue : Value → Copies → Heap Ω → Option (Copied Ω Value)} {base : Heap Ω}
    (hcopy : ∀ v copies (h : Heap Ω) c, copyValue v copies h = some c → base.Copying copies h →
      base.CopiesTo h c fun s => c.result = .struct s)
    (es : Entries) {copies : Copies} {h : Heap Ω} (hstart : base.Copying copies h)
    {c : Copied Ω Entries} (hc : copyEntries copyValue es copies h = some c) :
    (base.CopiesTo h c fun s => ∃ e ∈ c.result, e.2 = .struct s) ∧
      c.result.map Prod.fst = es.map Prod.fst := by
  induction es generalizing copies h c with
  | nil =>
    cases hc
    refine ⟨⟨hstart, Nat.le_refl _, ?_⟩, rfl⟩
    rintro s ⟨e, he, -⟩
    cases he
  | cons entry rest ih =>
    obtain ⟨k, v⟩ := entry
    simp only [copyEntries, bind, Option.bind_eq_some_iff] at hc
    obtain ⟨c₁, hfirst, c₂, hrest, heq⟩ := hc
    cases heq
    have h₁ := hcopy v copies h c₁ hfirst hstart
    obtain ⟨h₂, hkeys⟩ := ih h₁.copying hrest
    refine ⟨⟨h₂.copying, Nat.le_trans h₁.size_le h₂.size_le, ?_⟩, ?_⟩
    · rintro s ⟨e, he, hs⟩
      rcases List.mem_cons.mp he with rfl | he
      · exact (h₁.result s hs).mono h₂.size_le
      · exact h₂.result s ⟨e, he, hs⟩
    · exact congrArg (k :: ·) hkeys

variable [HostData Ω]

/-- Objects are copied without touching structs, and other data is kept as it is. -/
theorem copyWithin_leaf (levels : Nat) {v : Value} (hv : ∀ r, v ≠ .struct r) {copies : Copies}
    {c : Copied Ω Value} (hc : copyWithin levels v copies h = some c) :
    c.copies = copies ∧ c.heap.structs = h.structs ∧ ∀ s, c.result ≠ .struct s := by
  unfold copyWithin at hc
  split at hc
  · next r => exact absurd rfl (hv r)
  · split at hc
    · cases hc
      exact ⟨rfl, rfl, fun s => Value.noConfusion⟩
    · cases hc
      exact ⟨rfl, rfl, fun s => Value.noConfusion⟩
  · cases hc
    exact ⟨rfl, rfl, hv⟩

theorem copiesTo_copyWithin_leaf {base h : Heap Ω} (levels : Nat) {v : Value}
    (hv : ∀ r, v ≠ .struct r) {copies : Copies} (hstart : base.Copying copies h)
    {c : Copied Ω Value} (hc : copyWithin levels v copies h = some c) :
    base.CopiesTo h c fun s => c.result = .struct s := by
  obtain ⟨hcopies, hstructs, hresult⟩ := copyWithin_leaf levels hv hc
  have hentries : c.heap.entries = h.entries := by
    funext r
    unfold entries
    rw [hstructs]
  have hlinks : c.heap.Links = h.Links := by
    funext r s
    unfold Links
    rw [hentries]
  refine ⟨⟨⟨?_, ?_, ?_⟩, ?_, ?_⟩, ?_, ?_⟩
  · rw [hentries]
    exact hstart.onto.old
  · rw [hlinks]
    exact hstart.onto.fresh
  · rw [hentries]
    exact hstart.onto.keyed
  · rw [hstructs]
    exact hstart.size_le
  · unfold IsCopy
    rw [hcopies, hstructs]
    exact hstart.table
  · exact Nat.le_of_eq (congrArg Array.size hstructs.symm)
  · intro s hs
    exact absurd hs (hresult s)

/-- A copied struct comes behind the copies of all structs that it holds. -/
theorem copiesTo_copyWithin {base : Heap Ω} (levels : Nat) (v : Value) {copies : Copies}
    {h : Heap Ω} (hstart : base.Copying copies h) {c : Copied Ω Value}
    (hc : copyWithin levels v copies h = some c) :
    base.CopiesTo h c fun s => c.result = .struct s := by
  induction levels generalizing v copies h c with
  | zero =>
    cases v with
    | struct r => cases hc
    | _ => exact copiesTo_copyWithin_leaf 0 (fun _ => Value.noConfusion) hstart hc
  | succ below ih =>
    cases v with
    | struct r =>
      unfold copyWithin at hc
      dsimp only at hc
      split at hc
      · next done hdone =>
        -- it was copied before
        cases hc
        refine ⟨hstart, Nat.le_refl _, ?_⟩
        intro s hs
        cases hs
        exact hstart.table (r, done) (mem_of_lookup hdone)
      · obtain ⟨cs, hentries, heq⟩ := Option.bind_eq_some_iff.mp hc
        cases heq
        obtain ⟨hcs, hkeys⟩ := copiesTo_copyEntries
          (fun v _ _ _ hcopy hstart => ih v hstart hcopy) (h.entries r) hstart hentries
        have hkeyed : (∀ s, (base.entries s).Keyed) → Entries.Keyed cs.result := by
          intro hbase
          have horiginal := hstart.onto.keyed hbase r
          constructor
          · intro e he
            have hmem : e.1 ∈ (h.entries r).map Prod.fst := by
              rw [← hkeys]
              exact List.mem_map_of_mem he
            obtain ⟨e', he', heq⟩ := List.mem_map.mp hmem
            rw [← heq]
            exact horiginal.scalar e' he'
          · rw [hkeys]
            exact horiginal.distinct
        have honto := hcs.copying.onto.addStruct hcs.copying.size_le
          (fun e he s hs => hcs.result s ⟨e, he, hs⟩) hkeyed
        have hgrown : cs.heap.structs.size ≤ (cs.heap.addStruct cs.result).2.structs.size := by
          show _ ≤ (cs.heap.structs.push cs.result).size
          rw [Array.size_push]
          omega
        have hlast : base.IsCopy (cs.heap.addStruct cs.result).2 ⟨cs.heap.structs.size⟩ := by
          refine ⟨hcs.copying.size_le, ?_⟩
          show _ < (cs.heap.structs.push cs.result).size
          rw [Array.size_push]
          exact Nat.lt_succ_self _
        refine ⟨⟨honto, Nat.le_trans hcs.copying.size_le hgrown, ?_⟩,
          Nat.le_trans hcs.size_le hgrown, ?_⟩
        · intro p hp
          rcases List.mem_cons.mp hp with rfl | hp
          · exact hlast
          · exact (hcs.copying.table p hp).mono hgrown
        · intro s hs
          cases hs
          exact hlast
    | _ => exact copiesTo_copyWithin_leaf (below + 1) (fun _ => Value.noConfusion) hstart hc

theorem copiedOnto_deepCopy {v w : Value} {instruction : String}
    (hcopy : h.deepCopy v instruction = .ok (w, h')) : h.CopiedOnto h' := by
  unfold Heap.deepCopy at hcopy
  split at hcopy
  · next c hc =>
    cases hcopy
    have hstart : h.Copying [] h := ⟨.refl h, Nat.le_refl _, fun p hp => absurd hp List.not_mem_nil⟩
    exact (copiesTo_copyWithin _ v hstart hc).copying.onto
  · cases hcopy

theorem Sound.deepCopy (hs : h.Sound) {v w : Value} {instruction : String}
    (hcopy : h.deepCopy v instruction = .ok (w, h')) : h'.Sound :=
  (copiedOnto_deepCopy hcopy).sound hs

/-! ## Section 3: All changes -/

/-- Every checked operation keeps a heap sound. -/
theorem Sound.change (hs : h.Sound) (hchange : h.Change h') : h'.Sound := by
  cases hchange with
  | none => exact hs
  | newStruct => exact hs.addEmpty
  | newObject x => exact hs.of_entries_eq fun _ => rfl
  | setObject r x => exact hs.of_entries_eq fun _ => rfl
  | put container key value instruction => exact hs.put container key value instruction
  | deepCopy hcopy => exact hs.deepCopy hcopy

/-- The keys of a struct in a sound heap are different values to scripts, too. -/
theorem Sound.pairwise_not_equals (hs : h.Sound) (r : StructRef) :
    (h.entries r).Pairwise fun e f => h.equals e.1 f.1 = false ∧ h.equals f.1 e.1 = false := by
  have hne : (h.entries r).Pairwise fun e f => e.1 ≠ f.1 :=
    List.pairwise_map.mp (hs.keyed r).distinct
  apply hne.imp_of_mem
  intro e f he hf hef
  constructor
  · rw [h.equals_of_scalar e.1 ((hs.keyed r).scalar f hf)]
    exact decide_eq_false hef
  · rw [h.equals_of_scalar f.1 ((hs.keyed r).scalar e he)]
    exact decide_eq_false (Ne.symm hef)

end ContractVM.Heap
