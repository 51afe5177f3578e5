import ContractVM.Proofs.Heap.Built
import ContractVM.Proofs.Heap.Symmetry
import ContractVM.Proofs.Heap.Walks

/-! # First paths

    A copy goes through the structs behind a value depth first, and through each of them just
    once.  So it comes to a struct on the first of all paths that lead there, in the order of the
    entries, and it is the length of that path that counts against `maxNesting`:

    * **Copies of rows** fail at the first value whose copy fails.
    * **A struct** cannot be copied just if some struct is first met at the last level, and holds
      another one.  Chains on which nothing is met for the first time may have any length. -/

namespace ContractVM

open Relation

namespace Heap

variable {Ω : Type} {h : Heap Ω}

/-! ## Section 1: Paths -/

/-- A path from one struct to another one, by the positions of the entries that it follows. -/
inductive Path (h : Heap Ω) : StructRef → List Nat → StructRef → Prop where
  | nil (r : StructRef) : Path h r [] r
  | cons {r s t : StructRef} {i : Nat} {is : List Nat} {key : Value}
    (hentry : (h.entries r)[i]? = some (key, .struct s)) (hrest : Path h s is t) :
    Path h r (i :: is) t

/-- A path before which no other path leads there, when entries are followed in their order and
    each of them as far as it goes. -/
def FirstPath (h : Heap Ω) (r : StructRef) (is : List Nat) (t : StructRef) : Prop :=
  h.Path r is t ∧ ∀ js, h.Path r js t → ¬js < is

theorem Path.reaches {r t : StructRef} {is : List Nat} (hpath : h.Path r is t) :
    ReflTransGen h.Links r t := by
  induction hpath with
  | nil => exact .refl
  | cons hentry _ ih => exact .head ⟨_, List.mem_of_getElem? hentry, rfl⟩ ih

theorem exists_path {r t : StructRef} (hreaches : ReflTransGen h.Links r t) :
    ∃ is, h.Path r is t := by
  induction hreaches using ReflTransGen.head_induction_on with
  | refl => exact ⟨[], .nil t⟩
  | head hlink _ ih =>
    obtain ⟨⟨key, value⟩, he, rfl⟩ := hlink
    obtain ⟨is, hpath⟩ := ih
    obtain ⟨i, hi⟩ := List.getElem?_of_mem he
    exact ⟨i :: is, .cons hi hpath⟩

/-- A path that goes on is the beginning of a chain. -/
theorem Path.descends {r s t : StructRef} {is : List Nat} (hpath : h.Path r is t)
    (hlink : h.Links t s) : h.Descends (is.length + 1) r := by
  induction hpath with
  | nil => exact ⟨s, hlink, trivial⟩
  | cons hentry _ ih => exact ⟨_, ⟨_, List.mem_of_getElem? hentry, rfl⟩, ih hlink⟩

theorem exists_path_of_descends {n : Nat} {r : StructRef} (hr : h.Descends (n + 1) r) :
    ∃ is t s, h.Path r is t ∧ is.length = n ∧ h.Links t s := by
  induction n generalizing r with
  | zero =>
    obtain ⟨s, hlink, -⟩ := hr
    exact ⟨[], r, s, .nil r, rfl, hlink⟩
  | succ n ih =>
    obtain ⟨u, ⟨⟨key, value⟩, he, rfl⟩, hu⟩ := hr
    obtain ⟨is, t, s, hpath, hlength, hlink⟩ := ih hu
    obtain ⟨i, hi⟩ := List.getElem?_of_mem he
    exact ⟨i :: is, t, s, .cons hi hpath, congrArg Nat.succ hlength, hlink⟩

/-- What is behind a first path is a first path, too. -/
theorem FirstPath.tail {r s t : StructRef} {i : Nat} {is : List Nat} {key : Value}
    (hfirst : h.FirstPath r (i :: is) t) (hentry : (h.entries r)[i]? = some (key, .struct s))
    (hpath : h.Path s is t) : h.FirstPath s is t :=
  ⟨hpath, fun js hjs hlt =>
    hfirst.2 (i :: js) (.cons hentry hjs) (List.cons_lt_cons_iff.mpr (.inr ⟨rfl, hlt⟩))⟩

/-- An entry stands behind all those before it. -/
theorem getElem?_of_row {r s : StructRef} {key : Value} {front back : Entries}
    (hrow : h.entries r = front ++ (key, .struct s) :: back) :
    (h.entries r)[front.length]? = some (key, .struct s) := by
  rw [hrow, List.getElem?_append_right (Nat.le_refl _), Nat.sub_self]
  rfl

theorem links_of_row {r s : StructRef} {key : Value} {front back : Entries}
    (hrow : h.entries r = front ++ (key, .struct s) :: back) : h.Links r s :=
  ⟨_, List.mem_of_getElem? (getElem?_of_row hrow), rfl⟩

/-- A path is the first one if its end is not behind any earlier entry, and its rest is the first
    path from there. -/
theorem FirstPath.cons {r s t : StructRef} {is : List Nat} {key : Value} {front back : Entries}
    (hrow : h.entries r = front ++ (key, .struct s) :: back) (hcyclic : ¬TransGen h.Links r r)
    (hfront : ∀ e ∈ front, ∀ u, e.2 = .struct u → ¬ReflTransGen h.Links u t)
    (hrest : h.FirstPath s is t) : h.FirstPath r (front.length :: is) t := by
  have hentry := getElem?_of_row hrow
  refine ⟨.cons hentry hrest.1, fun js hjs hlt => ?_⟩
  cases hjs with
  | nil =>
    -- the struct would hold itself
    exact hcyclic (TransGen.head' (links_of_row hrow) hrest.1.reaches)
  | @cons _ u _ j js key' hentry' hjs =>
    rcases List.cons_lt_cons_iff.mp hlt with hj | ⟨rfl, hjs'⟩
    · rw [hrow, List.getElem?_append_left hj] at hentry'
      exact hfront _ (List.mem_of_getElem? hentry') u rfl hjs.reaches
    · cases hentry.symm.trans hentry'
      exact hrest.2 js hjs hjs'

/-! ## Section 2: Copies of rows -/

section Rows

variable {copyValue : Value → Copies → Heap Ω → Option (Copied Ω Value)} {copies : Copies}

/-- The copy of a row fails at the first value whose copy fails. -/
theorem exists_of_copyEntries_eq_none {es : Entries} {h : Heap Ω}
    (hnone : copyEntries copyValue es copies h = none) :
    ∃ front e back c, es = front ++ e :: back ∧ copyEntries copyValue front copies h = some c ∧
      copyValue e.2 c.copies c.heap = none := by
  induction es generalizing copies h with
  | nil => cases hnone
  | cons e rest ih =>
    obtain ⟨k, v⟩ := e
    cases hfirst : copyValue v copies h with
    | none => exact ⟨[], (k, v), rest, ⟨[], copies, h⟩, rfl, rfl, hfirst⟩
    | some c =>
      simp only [copyEntries, hfirst, bind, Option.bind_some, Option.bind_eq_none_iff] at hnone
      have hrest : copyEntries copyValue rest c.copies c.heap = none := by
        cases hrest : copyEntries copyValue rest c.copies c.heap with
        | none => rfl
        | some cs => exact absurd (hnone cs hrest) (Option.some_ne_none _)
      obtain ⟨front, e, back, c', heq, hfront, hvalue⟩ := ih hrest
      refine ⟨(k, v) :: front, e, back, ⟨(k, c.result) :: c'.result, c'.copies, c'.heap⟩,
        congrArg ((k, v) :: ·) heq, ?_, hvalue⟩
      simp only [copyEntries, hfirst, bind, Option.bind_some, hfront]
      rfl

/-- If it does not fail, then neither do the copies of its values. -/
theorem exists_of_copyEntries_eq_some {front back : Entries} {e : Value × Value} {h : Heap Ω}
    {c : Copied Ω Entries} (hc : copyEntries copyValue (front ++ e :: back) copies h = some c) :
    ∃ c₁ c₂, copyEntries copyValue front copies h = some c₁ ∧
      copyValue e.2 c₁.copies c₁.heap = some c₂ := by
  induction front generalizing copies h c with
  | nil =>
    simp only [List.nil_append, copyEntries, bind, Option.bind_eq_some_iff] at hc
    obtain ⟨c₂, hfirst, -⟩ := hc
    exact ⟨⟨[], copies, h⟩, c₂, rfl, hfirst⟩
  | cons f front ih =>
    obtain ⟨k, v⟩ := f
    simp only [List.cons_append, copyEntries, bind, Option.bind_eq_some_iff] at hc
    obtain ⟨c', hfirst, cs, hrest, -⟩ := hc
    obtain ⟨c₁, c₂, hfront, hvalue⟩ := ih hrest
    refine ⟨⟨(k, c'.result) :: c₁.result, c₁.copies, c₁.heap⟩, c₂, ?_, hvalue⟩
    simp only [copyEntries, hfirst, bind, Option.bind_some, hfront]
    rfl

end Rows

/-! ## Section 3: Copies of structs -/

variable [HostData Ω] {base : Heap Ω} {copies : Copies}

/-- What is behind a struct that was copied was copied, too. -/
theorem Tabled.exists_pair (ht : base.Tabled copies h) {r s t : StructRef}
    (hpair : copies.Pairs r s) (hreaches : ReflTransGen base.Links r t) :
    ∃ u, copies.Pairs t u := by
  induction hreaches with
  | refl => exact ⟨s, hpair⟩
  | tail _ hlink ih =>
    obtain ⟨u, hu⟩ := ih
    obtain ⟨e, he, het⟩ := hlink
    obtain ⟨f, -, -, hmirror⟩ := (ht.rows _ u hu).exists_right he
    rw [het] at hmirror
    obtain ⟨w, -, hw⟩ := hmirror.of_struct
    exact ⟨w, hw⟩

/-- Only structs cannot be copied. -/
theorem exists_struct_of_copyWithin {levels : Nat} {v : Value}
    (hnone : copyWithin levels v copies h = none) : ∃ r, v = .struct r := by
  cases v with
  | struct r => exact ⟨r, rfl⟩
  | object o =>
    unfold copyWithin at hnone
    dsimp only at hnone
    split at hnone
    · cases hnone
    · cases hnone
  | _ =>
    unfold copyWithin at hnone
    cases hnone

/-- A struct that was not copied yet cannot be copied just if its row cannot. -/
theorem copyWithin_eq_none_iff_of_new {below : Nat} {r : StructRef}
    (hnew : ∀ s, ¬copies.Pairs r s) :
    copyWithin (below + 1) (.struct r) copies h = none ↔
      copyEntries (copyWithin below) (h.entries r) copies h = none := by
  have hlookup : copies.lookup r = none := by
    cases hlookup : copies.lookup r with
    | none => rfl
    | some s => exact absurd (mem_of_lookup hlookup) (hnew s)
  rw [copyWithin_of_new hlookup, Option.map_eq_none_iff]

/-- Do the levels run out on a first path from the struct?  They do if a struct that was not copied
    yet is met when none is left below it, and it holds another struct. -/
def RunsOut (base : Heap Ω) (copies : Copies) : Nat → StructRef → Prop
  | 0, _ => True
  | below + 1, r => ∃ is t s, base.FirstPath r is t ∧ is.length = below ∧ base.Links t s ∧
      ∀ u, ¬copies.Pairs t u

section Entry

variable {r s : StructRef} {key : Value} {front back : Entries}
  (hrow : base.entries r = front ++ (key, .struct s) :: back) {copies' : Copies}

include hrow

omit [HostData Ω] in
/-- They run out behind a struct if they do behind an entry, when all that is behind the entries
    before it was copied. -/
theorem RunsOut.of_entry (hcyclic : ¬TransGen base.Links r r) (hnew : ∀ u, ¬copies.Pairs r u)
    (hkept : ∀ t u, copies.Pairs t u → copies'.Pairs t u)
    (hfront : ∀ e ∈ front, ∀ u, e.2 = .struct u → ∀ t, ReflTransGen base.Links u t →
      ∃ w, copies'.Pairs t w)
    {below : Nat} (houts : base.RunsOut copies' below s) : base.RunsOut copies (below + 1) r := by
  cases below with
  | zero =>
    exact ⟨[], r, s, ⟨.nil r, fun js _ => List.not_lt_nil js⟩, rfl, links_of_row hrow, hnew⟩
  | succ below =>
    obtain ⟨is, t, u, hfirst, hlength, htu, hnone⟩ := houts
    refine ⟨front.length :: is, t, u, .cons hrow hcyclic ?_ hfirst, congrArg Nat.succ hlength, htu,
      fun w hpair => hnone w (hkept t w hpair)⟩
    intro e he v hv hreaches
    obtain ⟨w, hw⟩ := hfront e he v hv t hreaches
    exact hnone w hw

omit [HostData Ω] in
/-- If they run out behind a struct on a path through an entry, then they do behind that entry, when
    no more was copied than what is behind the entries before it. -/
theorem RunsOut.entry {is : List Nat} {t u : StructRef}
    (hfirst : base.FirstPath r (front.length :: is) t) (hpath : base.Path s is t)
    (hlink : base.Links t u) (hnone : ∀ w, ¬copies.Pairs t w)
    (hbehind : ∀ t w, copies'.Pairs t w → copies.Pairs t w ∨
      ∃ v, (∃ e ∈ front, e.2 = .struct v) ∧ ReflTransGen base.Links v t) :
    base.RunsOut copies' (is.length + 1) s := by
  refine ⟨is, t, u, hfirst.tail (getElem?_of_row hrow) hpath, rfl, hlink, fun w hpair => ?_⟩
  rcases hbehind t w hpair with hpair | ⟨v, ⟨e, he, hv⟩, hreaches⟩
  · exact hnone w hpair
  · -- a path through an earlier entry would come before
    obtain ⟨j, hj⟩ := List.getElem?_of_mem he
    obtain ⟨js, hjs⟩ := exists_path hreaches
    have hlt : j < front.length := (List.getElem?_eq_some_iff.mp hj).1
    have hentry' : (base.entries r)[j]? = some (e.1, .struct v) := by
      rw [hrow, List.getElem?_append_left hlt, hj, ← hv]
    exact hfirst.2 (j :: js) (.cons hentry' hjs) (List.cons_lt_cons_iff.mpr (.inl hlt))

end Entry

section Rows

variable (hrefs : base.Resolved) {below : Nat} {r : StructRef} (ht : base.Tabled copies h)

include hrefs ht

/-- The front of a row that was copied is a mirror, and all structs behind it are in the table. -/
theorem Tabled.copyEntries_front {front back : Entries} {c : Copied Ω Entries}
    (hrow : base.entries r = front ++ back)
    (hc : copyEntries (copyWithin below) front copies h = some c) :
    base.TabledTo copies h c c.result.objects (fun r => ∃ e ∈ front, e.2 = .struct r) ∧
      ∀ e ∈ front, ∀ u, e.2 = .struct u → ∀ t, ReflTransGen base.Links u t →
        ∃ w, c.copies.Pairs t w := by
  obtain ⟨hcopied, hmirrors⟩ := tabledTo_copyEntries
    (fun v _ _ _ hcopy hv ht => tabledTo_copyWithin hrefs below v hv ht hcopy) front
    (fun e he => hrefs r e (by rw [hrow]; exact List.mem_append_left _ he)) ht hc
  refine ⟨hcopied, ?_⟩
  intro e he u hu t hreaches
  obtain ⟨f, -, -, hmirror⟩ := hmirrors.exists_right he
  rw [hu] at hmirror
  obtain ⟨w, -, hpair⟩ := hmirror.of_struct
  exact hcopied.tabled.exists_pair hpair hreaches

variable (hbelow : ∀ {s : StructRef}, s.index < base.structs.size →
    ∀ {copies : Copies} {h : Heap Ω}, base.Tabled copies h →
    (copyWithin below (.struct s) copies h = none ↔ base.RunsOut copies below s))

include hbelow

/-- If a row cannot be copied, then the levels run out behind the first value that cannot. -/
theorem Tabled.runsOut_of_copyEntries (hcyclic : ¬TransGen base.Links r r)
    (hnew : ∀ u, ¬copies.Pairs r u)
    (hnone : copyEntries (copyWithin below) (base.entries r) copies h = none) :
    base.RunsOut copies (below + 1) r := by
  obtain ⟨front, ⟨key, v⟩, back, c, hrow, hfront, hvalue⟩ := exists_of_copyEntries_eq_none hnone
  obtain ⟨s, rfl⟩ := exists_struct_of_copyWithin hvalue
  obtain ⟨hcopied, hbehind⟩ := ht.copyEntries_front hrefs hrow hfront
  exact .of_entry hrow hcyclic hnew hcopied.kept hbehind
    ((hbelow (hrefs.closed.lt_of_links (links_of_row hrow)) hcopied.tabled).mp hvalue)

/-- If the levels run out behind a struct, then a value of its row cannot be copied. -/
theorem Tabled.copyEntries_of_runsOut (houts : base.RunsOut copies (below + 1) r) :
    copyEntries (copyWithin below) (base.entries r) copies h = none := by
  obtain ⟨is, t, u, hfirst, rfl, hlink, hnone⟩ := houts
  cases hcopy : copyEntries (copyWithin is.length) (base.entries r) copies h with
  | none => rfl
  | some cs =>
    exfalso
    cases is with
    | nil =>
      -- no level is left for the struct that the end of the path holds
      cases hfirst.1
      obtain ⟨⟨key, v⟩, he, rfl⟩ := hlink
      obtain ⟨front, back, hrow⟩ := List.append_of_mem he
      rw [hrow] at hcopy
      obtain ⟨c₁, c₂, -, hvalue⟩ := exists_of_copyEntries_eq_some hcopy
      cases hvalue
    | cons i is =>
      cases hfirst.1 with
      | @cons _ s _ _ _ key hentry hrest =>
        obtain ⟨hi, hget⟩ := List.getElem?_eq_some_iff.mp hentry
        have hrow : base.entries r =
            (base.entries r).take i ++ (key, .struct s) :: (base.entries r).drop (i + 1) := by
          rw [← hget, List.getElem_cons_drop, List.take_append_drop]
        have hlength : ((base.entries r).take i).length = i :=
          List.length_take_of_le (Nat.le_of_lt hi)
        rw [hrow] at hcopy
        obtain ⟨c₁, c₂, hfront, hvalue⟩ := exists_of_copyEntries_eq_some hcopy
        obtain ⟨hcopied, -⟩ := ht.copyEntries_front hrefs hrow hfront
        have houts : base.RunsOut c₁.copies (is.length + 1) s := by
          refine .entry hrow ?_ hrest hlink hnone hcopied.behind
          rw [hlength]
          exact hfirst
        have hthere := hrefs.closed.lt_of_links ⟨_, List.mem_of_getElem? hentry, rfl⟩
        have hrefused := (hbelow hthere hcopied.tabled).mpr houts
        cases hrefused.symm.trans hvalue

end Rows

/-- A struct cannot be copied just if the levels run out on a first path. -/
theorem copyWithin_eq_none_iff (hs : base.Sound) (hrefs : base.Resolved) (levels : Nat)
    {r : StructRef} (hr : r.index < base.structs.size) {copies : Copies} {h : Heap Ω}
    (ht : base.Tabled copies h) :
    copyWithin levels (.struct r) copies h = none ↔ base.RunsOut copies levels r := by
  -- on the levels, since the structs in the row are met one level deeper
  induction levels generalizing r copies h with
  | zero => exact iff_of_true rfl trivial
  | succ below ih =>
    by_cases hmet : ∃ s, copies.Pairs r s
    · -- it was copied before, with all structs behind it
      obtain ⟨s, hpair⟩ := hmet
      refine iff_of_false ?_ ?_
      · unfold copyWithin
        dsimp only
        rw [lookup_of_mem ht.functional hpair]
        exact Option.some_ne_none _
      · rintro ⟨is, t, u, hfirst, -, -, hnone⟩
        obtain ⟨w, hw⟩ := ht.exists_pair hpair hfirst.1.reaches
        exact hnone w hw
    · have hnew : ∀ s, ¬copies.Pairs r s := fun s hpair => hmet ⟨s, hpair⟩
      rw [copyWithin_eq_none_iff_of_new hnew, ht.grown.entries_eq hr]
      exact ⟨ht.runsOut_of_copyEntries hrefs ih (hs.acyclic r) hnew,
        ht.copyEntries_of_runsOut hrefs ih⟩

/-! ## Section 4: Deep copies -/

section DeepCopy

variable {v : Value} {instruction : String}

/-- A copy fails for the nesting of structs only. -/
theorem deepCopy_eq_error_iff {f : Fault} : h.deepCopy v instruction = .error f ↔
    f = .outOfRange instruction .nesting ∧ copyWithin maxNesting v [] h = none := by
  unfold deepCopy
  cases copyWithin maxNesting v [] h with
  | none =>
    constructor
    · intro hfault
      cases hfault
      exact ⟨rfl, rfl⟩
    · rintro ⟨rfl, -⟩
      rfl
  | some c => exact iff_of_false nofun fun hboth => Option.some_ne_none _ hboth.2

/-- The copy of a value fails just if the 128th struct on a first path holds another one. -/
theorem copyWithin_maxNesting_eq_none_iff (hs : h.Sound) (hrefs : h.Resolved) (hv : v.Resolves h) :
    copyWithin maxNesting v [] h = none ↔ ∃ r is t s, v = .struct r ∧ h.FirstPath r is t ∧
      is.length = maxNesting - 1 ∧ h.Links t s := by
  have hstruct : ∀ {r}, v = .struct r → (copyWithin maxNesting (.struct r) [] h = none ↔
      h.RunsOut [] maxNesting r) := by
    rintro r rfl
    exact copyWithin_eq_none_iff hs hrefs maxNesting hv.1 (tabled_nil h)
  constructor
  · intro hnone
    obtain ⟨r, rfl⟩ := exists_struct_of_copyWithin hnone
    obtain ⟨is, t, s, hfirst, hlength, hlink, -⟩ := (hstruct rfl).mp hnone
    exact ⟨r, is, t, s, rfl, hfirst, hlength, hlink⟩
  · rintro ⟨r, is, t, s, rfl, hfirst, hlength, hlink⟩
    exact (hstruct rfl).mpr ⟨is, t, s, hfirst, hlength, hlink, fun _ => List.not_mem_nil⟩

end DeepCopy

/-! ## Section 5: Chains that are met twice -/

/-- A struct cannot be copied if the first of its values cannot. -/
theorem copyWithin_eq_none_of_first {below : Nat} {r : StructRef} {key v : Value} {back : Entries}
    (hrow : h.entries r = (key, v) :: back) (hnone : copyWithin below v [] h = none) :
    copyWithin (below + 1) (.struct r) [] h = none := by
  refine (copyWithin_eq_none_iff_of_new fun _ => List.not_mem_nil).mpr ?_
  rw [hrow]
  simp only [copyEntries, hnone, bind, Option.bind_none]

section Chains

variable {key : Value} {P : StructRef → Prop} {n : Nat} {r : StructRef}

omit [HostData Ω] in
theorem Chain.descends (hchain : h.Chain key P n r) : h.Descends n r := by
  induction n generalizing r with
  | zero => exact trivial
  | succ n ih =>
    obtain ⟨-, s, hrow, hrest⟩ := hchain
    refine ⟨s, ⟨(key, .struct s), ?_, rfl⟩, ih hrest⟩
    rw [hrow]
    exact List.mem_singleton_self _

/-- Chains that are longer than the levels cannot be copied. -/
theorem Chain.copyWithin_eq_none (hchain : h.Chain key P n r) {levels : Nat}
    (hlevels : levels ≤ n) : copyWithin levels (.struct r) [] h = none := by
  induction levels generalizing n r with
  | zero => rfl
  | succ below ih =>
    obtain ⟨n, rfl⟩ : ∃ k, n = k + 1 := ⟨n - 1, by omega⟩
    obtain ⟨-, s, hrow, hrest⟩ := hchain
    exact copyWithin_eq_none_of_first hrow (ih hrest (Nat.le_of_succ_le_succ hlevels))

end Chains

theorem built_knot : knot.Built := by
  have hkey : ∀ n, (Value.number n).isScalar = true := fun _ => rfl
  -- the rows of the first two structs
  let h₀ : Heap Empty := empty.newStruct.2.newStruct.2
  let h₁ := h₀.hang ⟨0⟩ (.number 0)
  let h₂ := h₁.hang ⟨0⟩ (.number 1)
  let h₃ := h₂.hang ⟨1⟩ (.number 1)
  let h₄ := h₃.hang ⟨1⟩ (.number 0)
  have hsize₀ : h₀.structs.size = 2 := rfl
  have hsize₁ : h₁.structs.size = 3 := size_hang (hkey 0) (by rw [hsize₀]; decide)
  have hsize₂ : h₂.structs.size = 4 :=
    (size_hang (hkey 1) (by rw [hsize₁]; decide)).trans (congrArg Nat.succ hsize₁)
  have hsize₃ : h₃.structs.size = 5 :=
    (size_hang (hkey 1) (by rw [hsize₂]; decide)).trans (congrArg Nat.succ hsize₂)
  have hsize₄ : h₄.structs.size = 6 :=
    (size_hang (hkey 0) (by rw [hsize₃]; decide)).trans (congrArg Nat.succ hsize₃)
  have hb₀ : h₀.Built := .newStruct (.newStruct .empty)
  have hb₁ : h₁.Built := hb₀.hang (by rw [hsize₀]; decide) _
  have hb₂ : h₂.Built := hb₁.hang (by rw [hsize₁]; decide) _
  have hb₃ : h₃.Built := hb₂.hang (by rw [hsize₂]; decide) _
  have hb₄ : h₄.Built := hb₃.hang (by rw [hsize₃]; decide) _
  -- and the entries that lead to the same structs again
  have hthere : ∀ i, i < 6 → (Value.struct ⟨i⟩).Resolves h₄ :=
    fun i hi => ⟨Nat.lt_of_lt_of_eq hi hsize₄.symm, fun _ => Value.noConfusion⟩
  have hb₅ := hb₄.put (hthere 3 (by decide)) (.number 0) (hthere 2 (by decide)) "PUT"
  obtain ⟨honto, -⟩ := @Closed.put _ _ _ hb₄.resolved.closed (.struct ⟨3⟩) (.number 0) _ "PUT"
    (hthere 3 (by decide)).1 (hthere 2 (by decide)).1
  have hthere' : ∀ i, i < 6 → (Value.struct ⟨i⟩).Resolves
      (h₄.put (.struct ⟨3⟩) (.number 0) (.struct ⟨2⟩) "PUT").heap :=
    fun i hi => ⟨Nat.lt_of_lt_of_le (hthere i hi).1 honto.size_le, fun _ => Value.noConfusion⟩
  exact hb₅.put (hthere' 4 (by decide)) (.number 0) (hthere' 5 (by decide)) "PUT"

theorem size_knot : knot.structs.size = 6 := by
  rw [structs_knot]
  rfl

theorem built_stitched (links : Nat) : (stitched links).Built := by
  have hkey : (Value.number 0).isScalar = true := rfl
  have hempty : knot.entries ⟨2⟩ = [] := by
    unfold entries
    rw [structs_knot]
    rfl
  obtain ⟨-, -, hsize⟩ := chain_hangChain hkey links (h := knot) (r := ⟨2⟩)
    (by rw [size_knot]; decide) hempty
  refine Built.hangChain hkey links (built_knot.hangChain hkey links ?_) ?_
  · rw [size_knot]
    decide
  · rw [hsize, size_knot]
    exact Nat.lt_add_right links (by decide)

namespace Stitched

variable {h : Heap Empty} {links : Nat} {P Q : StructRef → Prop}

/-- One way, the chain is met near enough to the top, and no more for the first time where it stands
    one level deeper. -/
theorem length_le_of_first (hstitched : Stitched h links P Q) (hlinks : 0 < links) {is : List Nat}
    {t s : StructRef} (hfirst : h.FirstPath ⟨0⟩ is t) (hlink : h.Links t s) :
    is.length ≤ links := by
  cases hfirst.1 with
  | nil => exact Nat.zero_le links
  | @cons _ u _ i is key hentry hrest =>
    rw [hstitched.left] at hentry
    rcases i with _ | _ | i
    · -- straight into the chain
      cases hentry
      apply Nat.le_of_not_lt
      intro hlength
      exact hstitched.first.not_descends ((hrest.descends hlink).mono hlength)
    · cases hentry
      cases hrest with
      | nil => exact hlinks
      | @cons _ u _ j js key hentry' hrest' =>
        rw [hstitched.left_end] at hentry'
        rcases j with _ | j
        · -- the chain again, but there is an earlier path to all of it
          cases hentry'
          have hstraight : (h.entries ⟨0⟩)[0]? = some (.number 0, .struct ⟨2⟩) := by
            rw [hstitched.left]
            rfl
          have hearlier : h.Path ⟨0⟩ (0 :: js) t := .cons hstraight hrest'
          exact absurd (List.cons_lt_cons_iff.mpr (.inl Nat.zero_lt_one)) (hfirst.2 _ hearlier)
        · cases hentry'
    · cases hentry

theorem resolves (hstitched : Stitched h links P Q) : (Value.struct ⟨0⟩).Resolves h :=
  ⟨lt_size_of_entries_ne_nil (by rw [hstitched.left]; exact List.cons_ne_nil _ _),
    fun _ => Value.noConfusion⟩

/-- So there is a copy. -/
theorem exists_copy (hstitched : Stitched h links P Q) (hb : h.Built) (hlinks : 0 < links)
    (hfit : links < maxNesting - 1) (instruction : String) :
    ∃ c, h.deepCopy (.struct ⟨0⟩) instruction = .ok c := by
  cases hcopy : h.deepCopy (.struct ⟨0⟩) instruction with
  | ok c => exact ⟨c, rfl⟩
  | error f =>
    obtain ⟨-, hnone⟩ := deepCopy_eq_error_iff.mp hcopy
    obtain ⟨r, is, t, s, heq, hfirst, hlength, hlink⟩ :=
      (copyWithin_maxNesting_eq_none_iff hb.sound hb.resolved hstitched.resolves).mp hnone
    cases heq
    have hle := hstitched.length_le_of_first hlinks hfirst hlink
    rw [hlength] at hle
    exact absurd hle (Nat.not_le.mpr hfit)

/-- The other way, the deeper place comes first. -/
theorem copyWithin_back_eq (hstitched : Stitched h links P Q) (hlinks : 126 ≤ links) :
    copyWithin maxNesting (.struct ⟨1⟩) [] h = none :=
  copyWithin_eq_none_of_first hstitched.right
    (copyWithin_eq_none_of_first hstitched.right_end (hstitched.second.copyWithin_eq_none hlinks))

/-- Both ways, the chain makes too long a chain together with the structs above it. -/
theorem descends (hstitched : Stitched h links P Q) :
    h.Descends (links + 2) ⟨0⟩ ∧ h.Descends (links + 2) ⟨1⟩ := by
  refine ⟨⟨⟨3⟩, ⟨(.number 1, .struct ⟨3⟩), ?_, rfl⟩, ⟨2⟩, ⟨(.number 0, .struct ⟨2⟩), ?_, rfl⟩,
      hstitched.first.descends⟩,
    ⟨⟨4⟩, ⟨(.number 1, .struct ⟨4⟩), ?_, rfl⟩, ⟨5⟩, ⟨(.number 0, .struct ⟨5⟩), ?_, rfl⟩,
      hstitched.second.descends⟩⟩
  · rw [hstitched.left]
    exact List.mem_cons_of_mem _ List.mem_cons_self
  · rw [hstitched.left_end]
    exact List.mem_cons_self
  · rw [hstitched.right]
    exact List.mem_cons_self
  · rw [hstitched.right_end]
    exact List.mem_cons_self

end Stitched

end Heap

open Heap in
/-- **Copies are refused where a struct is first met too deep.**  Take a heap that was built by
    checked operations, and a value in it.

    Its copy is refused, with the fault of nesting, just if some struct holds another one and the
    first path to it, in the order of the entries, passes `maxNesting` structs.  So a refused value
    is nested beyond `maxNesting`, and no other value is ever refused; and a value that is nested
    beyond `maxNesting` is refused if each struct behind it can be reached on one path only. -/
theorem copies_are_refused_on_first_paths {Ω : Type} [HostData Ω] {h : Heap Ω} (hb : h.Built)
    {v : Value} (hv : v.Resolves h) (instruction : String) :
    (∀ f, h.deepCopy v instruction = .error f ↔
      f = .outOfRange instruction .nesting ∧
      ∃ r is t s, v = .struct r ∧ h.FirstPath r is t ∧ is.length = maxNesting - 1 ∧ h.Links t s) ∧
    (∀ f, h.deepCopy v instruction = .error f → h.NestsBeyond maxNesting v) ∧
    ((∀ r is js t, v = .struct r → h.Path r is t → h.Path r js t → is = js) →
      h.NestsBeyond maxNesting v →
      h.deepCopy v instruction = .error (.outOfRange instruction .nesting)) := by
  have hrefused : ∀ f, h.deepCopy v instruction = .error f ↔
      f = .outOfRange instruction .nesting ∧
      ∃ r is t s, v = .struct r ∧ h.FirstPath r is t ∧ is.length = maxNesting - 1 ∧
        h.Links t s := by
    intro f
    rw [deepCopy_eq_error_iff, copyWithin_maxNesting_eq_none_iff hb.sound hb.resolved hv]
  refine ⟨hrefused, ?deep, ?single⟩
  case deep =>
    intro f hfault
    obtain ⟨-, r, is, t, s, rfl, hfirst, hlength, hlink⟩ := (hrefused f).mp hfault
    have hdescends := hfirst.1.descends hlink
    rw [hlength] at hdescends
    exact ⟨r, rfl, hdescends⟩
  case single =>
    rintro hsingle ⟨r, rfl, hdescends⟩
    obtain ⟨is, t, s, hpath, hlength, hlink⟩ :=
      exists_path_of_descends (n := maxNesting - 1) hdescends
    refine (hrefused _).mpr ⟨rfl, r, is, t, s, rfl, ⟨hpath, ?_⟩, hlength, hlink⟩
    intro js hjs hlt
    cases hsingle r is js t rfl hpath hjs
    exact List.lt_irrefl _ hlt

/-- As long as the chain has less than 126 links, a struct that holds it twice is copied. -/
theorem short_chains_are_copied :
    ∃ c, (Heap.stitched 125).deepCopy (.struct ⟨0⟩) "COPY" = .ok c := by
  obtain ⟨P, Q, hstitched⟩ := Heap.stitched_stitched 125
  obtain ⟨-, hdeep, -⟩ := copies_are_refused_on_first_paths (Heap.built_stitched 125)
    hstitched.resolves "COPY"
  cases hcopy : (Heap.stitched 125).deepCopy (.struct ⟨0⟩) "COPY" with
  | ok c => exact ⟨c, rfl⟩
  | error f =>
    exact absurd (Heap.nestsBeyond_struct.mp (hdeep f hcopy)) hstitched.not_descends

/-- With one link more, there are chains of 129 structs behind both of two structs, which have the
    same entries in different orders.  One of them is copied, and the other one is refused. -/
theorem long_chain_is_copied_in_one_order :
    (Heap.stitched 126).Built ∧
    (Heap.stitched 126).NestsBeyond maxNesting (.struct ⟨0⟩) ∧
    (∃ c, (Heap.stitched 126).deepCopy (.struct ⟨0⟩) "COPY" = .ok c) ∧
    (Heap.stitched 126).NestsBeyond maxNesting (.struct ⟨1⟩) ∧
    (Heap.stitched 126).deepCopy (.struct ⟨1⟩) "COPY" =
      .error (.outOfRange "COPY" .nesting) := by
  obtain ⟨P, Q, hstitched⟩ := Heap.stitched_stitched 126
  have hb := Heap.built_stitched 126
  exact ⟨hb, ⟨⟨0⟩, rfl, hstitched.descends.1⟩,
    hstitched.exists_copy hb (by decide) (by decide) "COPY", ⟨⟨1⟩, rfl, hstitched.descends.2⟩,
    Heap.deepCopy_eq_error_iff.mpr ⟨rfl, hstitched.copyWithin_back_eq (Nat.le_refl 126)⟩⟩

end ContractVM
