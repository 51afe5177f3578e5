import ContractVM.Command.Execute
import ContractVM.Proofs.Heap.Closed
import Mathlib.Data.List.Forall2
import Mathlib.Data.List.Nodup
import Mathlib.Data.Set.Function

/-! # Deep copies as mirror images

    What a deep copy adds to a heap mirrors what is behind the value that was copied:

    * **Growth**: structs and objects come behind those of the heap, which stay as they are.
    * **Mirrors**: a row mirrors another one entry by entry, with images in place of structs and
      duplicates in place of objects.
    * **The table** of copies pairs structs with their images, one to one.  A struct is entered
      behind all structs that it holds, so that it would have to hold itself to be entered twice.
    * **Reach**: whatever is behind the copy mirrors something behind the value, and the other way
      round. -/

namespace ContractVM

open Relation

variable {Ω : Type} {h h' h'' : Heap Ω}

/-! ## Section 1: Growth -/

namespace Heap

/-- The heap has grown: structs and objects were added behind those that it had. -/
structure Extends (h h' : Heap Ω) : Prop where
  structs : h.structs.toList <+: h'.structs.toList
  objects : h.objects.toList <+: h'.objects.toList

theorem Extends.refl (h : Heap Ω) : h.Extends h :=
  ⟨List.prefix_rfl, List.prefix_rfl⟩

theorem Extends.trans (h₁ : h.Extends h') (h₂ : h'.Extends h'') : h.Extends h'' :=
  ⟨h₁.structs.trans h₂.structs, h₁.objects.trans h₂.objects⟩

theorem Extends.size_structs (hext : h.Extends h') : h.structs.size ≤ h'.structs.size :=
  hext.structs.length_le

theorem Extends.size_objects (hext : h.Extends h') : h.objects.size ≤ h'.objects.size :=
  hext.objects.length_le

/-- What was there is there still. -/
theorem Extends.entries_eq (hext : h.Extends h') {r : StructRef}
    (hr : r.index < h.structs.size) : h'.entries r = h.entries r := by
  have hget := List.prefix_iff_getElem?.mp hext.structs r.index hr
  unfold entries
  rw [Array.getD_eq_getD_getElem?, Array.getD_eq_getD_getElem?, ← Array.getElem?_toList, hget,
    ← Array.getElem?_toList, List.getElem?_eq_getElem hr]

theorem Extends.object?_eq (hext : h.Extends h') {o : ObjectRef}
    (ho : o.index < h.objects.size) : h'.object? o = h.object? o := by
  have hget := List.prefix_iff_getElem?.mp hext.objects o.index ho
  unfold object?
  rw [← Array.getElem?_toList, hget, ← Array.getElem?_toList, List.getElem?_eq_getElem ho]

theorem Extends.object?_eq_some (hext : h.Extends h') {o : ObjectRef} {x : HostObject Ω}
    (ho : h.object? o = some x) : h'.object? o = some x := by
  obtain ⟨hlt, -⟩ := Array.getElem?_eq_some_iff.mp ho
  rw [hext.object?_eq hlt, ho]

theorem extends_addStruct (h : Heap Ω) (es : Entries) : h.Extends (h.addStruct es).2 where
  structs := by
    show h.structs.toList <+: (h.structs.push es).toList
    rw [Array.toList_push]
    exact List.prefix_append _ _
  objects := List.prefix_rfl

theorem extends_addObject (h : Heap Ω) (x : HostObject Ω) : h.Extends (h.addObject x).2 where
  structs := List.prefix_rfl
  objects := by
    show h.objects.toList <+: (h.objects.push x).toList
    rw [Array.toList_push]
    exact List.prefix_append _ _

theorem extends_cast {v w : Value} {t : ValueType} {instruction : String}
    (hcast : h.cast v t instruction = .ok (w, h')) : h.Extends h' := by
  unfold Heap.cast at hcast
  split at hcast
  · cases hcast
    exact h.extends_addStruct []
  · obtain ⟨u, -, heq⟩ := Except.bind_eq_ok.mp hcast
    cases heq
    exact .refl h

theorem extends_copyEntries
    {copyValue : Value → Copies → Heap Ω → Option (Copied Ω Value)}
    (hcopy : ∀ v copies (h : Heap Ω) c, copyValue v copies h = some c → h.Extends c.heap)
    (es : Entries) {copies : Copies} {h : Heap Ω} {c : Copied Ω Entries}
    (hc : copyEntries copyValue es copies h = some c) : h.Extends c.heap := by
  induction es generalizing copies h c with
  | nil =>
    cases hc
    exact .refl h
  | cons e rest ih =>
    obtain ⟨k, v⟩ := e
    simp only [copyEntries, bind, Option.bind_eq_some_iff] at hc
    obtain ⟨c₁, hfirst, c₂, hrest, heq⟩ := hc
    cases heq
    have hgrown : c₁.heap.Extends c₂.heap := ih hrest
    exact (hcopy v copies h c₁ hfirst).trans hgrown

section Copies

variable [HostData Ω]

theorem extends_copyWithin_leaf (levels : Nat) {v : Value} (hleaf : ∀ r, v ≠ .struct r)
    {copies : Copies} {c : Copied Ω Value} (hc : copyWithin levels v copies h = some c) :
    h.Extends c.heap := by
  unfold copyWithin at hc
  split at hc
  · next r => exact absurd rfl (hleaf r)
  · split at hc
    · next x _ =>
      cases hc
      exact h.extends_addObject x.duplicate
    · cases hc
      exact .refl h
  · cases hc
    exact .refl h

/-- A copy comes behind what the heap holds, whether or not all references lead somewhere. -/
theorem extends_copyWithin (levels : Nat) (v : Value) {copies : Copies} {h : Heap Ω}
    {c : Copied Ω Value} (hc : copyWithin levels v copies h = some c) : h.Extends c.heap := by
  induction levels generalizing v copies h c with
  | zero =>
    cases v with
    | struct r =>
      unfold copyWithin at hc
      cases hc
    | _ => exact extends_copyWithin_leaf 0 (fun _ => Value.noConfusion) hc
  | succ below ih =>
    cases v with
    | struct r =>
      unfold copyWithin at hc
      dsimp only at hc
      split at hc
      · cases hc
        exact .refl h
      · -- the struct itself comes behind all that it holds
        obtain ⟨cs, hrow, heq⟩ := Option.bind_eq_some_iff.mp hc
        cases heq
        have hentries := extends_copyEntries (fun v _ _ _ hv => ih v hv) _ hrow
        exact hentries.trans (cs.heap.extends_addStruct cs.result)
    | _ => exact extends_copyWithin_leaf (below + 1) (fun _ => Value.noConfusion) hc

theorem extends_deepCopy {v w : Value} {instruction : String}
    (hcopy : h.deepCopy v instruction = .ok (w, h')) : h.Extends h' := by
  unfold deepCopy at hcopy
  split at hcopy
  · next hdone =>
    cases hcopy
    exact extends_copyWithin maxNesting v hdone
  · cases hcopy

end Copies

/-! ## Section 2: Mirrors -/

section HostData

variable [HostData Ω]

/-- Does the second value, in a heap that has grown, mirror the first?  A struct is mirrored by
    its image, an object by a new duplicate, and other data by itself. -/
inductive Mirrors (h h' : Heap Ω) (image : StructRef → StructRef → Prop) :
    Value → Value → Prop where
  | struct {r s : StructRef} (himage : image r s) : Mirrors h h' image (.struct r) (.struct s)
  | object {o p : ObjectRef} {x : HostObject Ω} (hold : h.object? o = some x)
    (hnew : h.objects.size ≤ p.index) (hcopy : h'.object? p = some x.duplicate) :
    Mirrors h h' image (.object o) (.object p)
  | data {v : Value} (hstruct : ∀ r, v ≠ .struct r) (hobject : ∀ o, v ≠ .object o) :
    Mirrors h h' image v v

/-- Does a row of entries mirror another one, with the same keys in the same order? -/
def MirrorsRow (h h' : Heap Ω) (image : StructRef → StructRef → Prop) (es fs : Entries) : Prop :=
  List.Forall₂ (fun e f => e.1 = f.1 ∧ h.Mirrors h' image e.2 f.2) es fs

variable {image image' : StructRef → StructRef → Prop}

/-- Mirrors stay mirrors while the heap grows. -/
theorem Mirrors.mono (himage : ∀ r s, image r s → image' r s) (hext : h'.Extends h'')
    {v w : Value} (hmirrors : h.Mirrors h' image v w) : h.Mirrors h'' image' v w := by
  cases hmirrors with
  | struct hrs => exact .struct (himage _ _ hrs)
  | object hold hnew hcopy => exact .object hold hnew (hext.object?_eq_some hcopy)
  | data hstruct hobject => exact .data hstruct hobject

theorem MirrorsRow.mono (himage : ∀ r s, image r s → image' r s) (hext : h'.Extends h'')
    {es fs : Entries} (hrow : h.MirrorsRow h' image es fs) : h.MirrorsRow h'' image' es fs :=
  hrow.imp fun _ _ hentry => ⟨hentry.1, hentry.2.mono himage hext⟩

/-- A scalar mirrors itself. -/
theorem mirrors_of_isScalar {v : Value} (hv : v.isScalar = true) : h.Mirrors h' image v v := by
  refine .data ?_ ?_
  · rintro r rfl
    cases hv
  · rintro o rfl
    cases hv

/-- A struct is mirrored by an image, and mirrors what it is an image of. -/
theorem Mirrors.of_struct {r : StructRef} {w : Value}
    (hmirrors : h.Mirrors h' image (.struct r) w) : ∃ s, w = .struct s ∧ image r s := by
  cases hmirrors with
  | struct himage => exact ⟨_, rfl, himage⟩
  | data hstruct => exact absurd rfl (hstruct r)

theorem Mirrors.to_struct {v : Value} {s : StructRef}
    (hmirrors : h.Mirrors h' image v (.struct s)) : ∃ r, v = .struct r ∧ image r s := by
  cases hmirrors with
  | struct himage => exact ⟨_, rfl, himage⟩
  | data hstruct => exact absurd rfl (hstruct s)

/-- An object that mirrors another one is new. -/
theorem Mirrors.to_object {v : Value} {p : ObjectRef}
    (hmirrors : h.Mirrors h' image v (.object p)) : h.objects.size ≤ p.index := by
  cases hmirrors with
  | object _ hnew => exact hnew
  | data _ hobject => exact absurd rfl (hobject p)

theorem exists_of_forall₂ {α β : Type} {R : α → β → Prop} {as : List α} {bs : List β}
    (hall : List.Forall₂ R as bs) {a : α} (ha : a ∈ as) : ∃ b ∈ bs, R a b := by
  induction hall with
  | nil => cases ha
  | @cons a' b as bs hab _ ih =>
    rcases List.mem_cons.mp ha with rfl | ha
    · exact ⟨b, List.mem_cons_self, hab⟩
    · obtain ⟨c, hc, hac⟩ := ih ha
      exact ⟨c, List.mem_cons_of_mem b hc, hac⟩

/-- Each entry of a row has a mirror, and each entry of the mirror is one of an entry. -/
theorem MirrorsRow.exists_right {es fs : Entries} (hrow : h.MirrorsRow h' image es fs)
    {e : Value × Value} (he : e ∈ es) : ∃ f ∈ fs, e.1 = f.1 ∧ h.Mirrors h' image e.2 f.2 :=
  exists_of_forall₂ hrow he

theorem MirrorsRow.exists_left {es fs : Entries} (hrow : h.MirrorsRow h' image es fs)
    {f : Value × Value} (hf : f ∈ fs) : ∃ e ∈ es, e.1 = f.1 ∧ h.Mirrors h' image e.2 f.2 :=
  exists_of_forall₂ hrow.flip hf

end HostData

end Heap

/-! ## Section 3: Objects -/

/-- The object that a value refers to. -/
def Value.objects : Value → List ObjectRef
  | .object o => [o]
  | _ => []

/-- The objects that the values of a row refer to, entry by entry. -/
def Entries.objects (es : Entries) : List ObjectRef :=
  es.flatMap fun e => e.2.objects

namespace Heap

/-- The objects that the structs of a heap hold, but for the first so many structs. -/
def objectsFrom (n : Nat) (h : Heap Ω) : List ObjectRef :=
  (h.structs.toList.drop n).flatMap Entries.objects

/-- The objects that have come to a heap. -/
def newObjects (h h' : Heap Ω) : List ObjectRef :=
  (List.range' h.objects.size (h'.objects.size - h.objects.size)).map ObjectRef.mk

theorem newObjects_self (h : Heap Ω) : h.newObjects h = [] := by
  unfold newObjects
  rw [Nat.sub_self]
  rfl

theorem newObjects_append (h₁ : h.Extends h') (h₂ : h'.Extends h'') :
    h.newObjects h' ++ h'.newObjects h'' = h.newObjects h'' := by
  have hsize₁ := h₁.size_objects
  have hsize₂ := h₂.size_objects
  obtain ⟨m, hm⟩ := Nat.exists_eq_add_of_le hsize₁
  obtain ⟨n, hn⟩ := Nat.exists_eq_add_of_le hsize₂
  unfold newObjects
  rw [← List.map_append, hn, hm, Nat.add_sub_cancel_left, Nat.add_sub_cancel_left, Nat.add_assoc,
    Nat.add_sub_cancel_left, List.range'_append_1]

theorem newObjects_addObject (h : Heap Ω) (x : HostObject Ω) :
    h.newObjects (h.addObject x).2 = [⟨h.objects.size⟩] := by
  show (List.range' h.objects.size ((h.objects.push x).size - h.objects.size)).map ObjectRef.mk = _
  rw [Array.size_push, Nat.add_sub_cancel_left]
  rfl

theorem objectsFrom_size (h : Heap Ω) : h.objectsFrom h.structs.size = [] := by
  have hdrop : h.structs.toList.drop h.structs.size = [] :=
    List.drop_eq_nil_of_le (Nat.le_refl _)
  unfold objectsFrom
  rw [hdrop]
  rfl

theorem objectsFrom_addStruct {n : Nat} (hn : n ≤ h.structs.size) (es : Entries) :
    (h.addStruct es).2.objectsFrom n = h.objectsFrom n ++ es.objects := by
  show ((h.structs.push es).toList.drop n).flatMap Entries.objects = _
  rw [Array.toList_push, List.drop_append_of_le_length hn, List.flatMap_append,
    List.flatMap_singleton]
  rfl

end Heap

/-! ## Section 4: The table of copies -/

/-- Does the table pair the structs? -/
def Copies.Pairs (copies : Copies) (r s : StructRef) : Prop :=
  (r, s) ∈ copies

/-- Is there what the value refers to? -/
def Value.Resolves (h : Heap Ω) (v : Value) : Prop :=
  v.LivesIn h ∧ ∀ o, v = .object o → o.index < h.objects.size

namespace Heap

/-- Is there what the values of all entries refer to? -/
def Resolved (h : Heap Ω) : Prop :=
  ∀ r, ∀ e ∈ h.entries r, e.2.Resolves h

/-- A struct from which all chains of links end does not hold itself. -/
theorem not_cyclic_of_acc {r : StructRef} (hr : Acc (Function.swap h.Links) r) :
    ¬TransGen h.Links r r := by
  have hchain := hr.transGen
  induction hchain with
  | intro r _ ih =>
    intro hcycle
    have hback := transGen_swap.mpr hcycle
    exact ih r hback (hr.inv_of_transGen hback) hcycle

variable [HostData Ω]

/-- The table pairs structs of the first heap with their images in the grown one, one to one. -/
structure Tabled (h : Heap Ω) (copies : Copies) (h' : Heap Ω) : Prop where
  grown : h.Extends h'
  old : ∀ r s, copies.Pairs r s → r.index < h.structs.size
  new : ∀ r s, copies.Pairs r s → h.IsCopy h' s
  rows : ∀ r s, copies.Pairs r s → h.MirrorsRow h' copies.Pairs (h.entries r) (h'.entries s)
  functional : (copies.map Prod.fst).Nodup
  injective : (copies.map Prod.snd).Nodup
  /-- Nothing that was copied holds itself. -/
  founded : ∀ r s, copies.Pairs r s → Acc (Function.swap h.Links) r

theorem tabled_nil (h : Heap Ω) : h.Tabled [] h where
  grown := .refl h
  old _ _ hrs := absurd hrs List.not_mem_nil
  new _ _ hrs := absurd hrs List.not_mem_nil
  rows _ _ hrs := absurd hrs List.not_mem_nil
  functional := List.nodup_nil
  injective := List.nodup_nil
  founded _ _ hrs := absurd hrs List.not_mem_nil

variable {base : Heap Ω} {copies : Copies}

/-- The table stays right while the heap grows. -/
theorem Tabled.mono (ht : base.Tabled copies h) (hext : h.Extends h') : base.Tabled copies h' where
  grown := ht.grown.trans hext
  old := ht.old
  new r s hrs := (ht.new r s hrs).mono hext.size_structs
  rows r s hrs := by
    rw [hext.entries_eq (ht.new r s hrs).2]
    exact (ht.rows r s hrs).mono (fun _ _ hpair => hpair) hext
  functional := ht.functional
  injective := ht.injective
  founded := ht.founded

/-- A struct is entered with a mirror of its row. -/
theorem Tabled.enter (ht : base.Tabled copies h) {r : StructRef} {es : Entries}
    (hold : r.index < base.structs.size) (hnew : r ∉ copies.map Prod.fst)
    (hrow : base.MirrorsRow h copies.Pairs (base.entries r) es) :
    base.Tabled ((r, ⟨h.structs.size⟩) :: copies) (h.addStruct es).2 := by
  have hext := h.extends_addStruct es
  have hpairs : ∀ t u, copies.Pairs t u → Copies.Pairs ((r, ⟨h.structs.size⟩) :: copies) t u :=
    fun _ _ => List.mem_cons_of_mem _
  refine ⟨ht.grown.trans hext, ?old, ?new, ?rows, ?functional, ?injective, ?founded⟩
  case old =>
    intro t u htu
    rcases List.mem_cons.mp htu with heq | htu
    · cases heq
      exact hold
    · exact ht.old t u htu
  case new =>
    intro t u htu
    rcases List.mem_cons.mp htu with heq | htu
    · cases heq
      exact ⟨ht.grown.size_structs, by rw [size_addStruct]; exact Nat.lt_succ_self _⟩
    · exact (ht.new t u htu).mono hext.size_structs
  case rows =>
    intro t u htu
    rcases List.mem_cons.mp htu with heq | htu
    · cases heq
      rw [entries_addStruct, if_pos rfl]
      exact hrow.mono hpairs hext
    · rw [hext.entries_eq (ht.new t u htu).2]
      exact (ht.rows t u htu).mono hpairs hext
  case functional => exact List.nodup_cons.mpr ⟨hnew, ht.functional⟩
  case injective =>
    refine List.nodup_cons.mpr ⟨?_, ht.injective⟩
    intro hmem
    obtain ⟨⟨t, u⟩, htu, heq⟩ := List.mem_map.mp hmem
    cases heq
    exact absurd (ht.new t _ htu).2 (Nat.lt_irrefl _)
  case founded =>
    intro t u htu
    rcases List.mem_cons.mp htu with heq | htu
    · cases heq
      refine Acc.intro r fun t hlink => ?_
      -- what the struct holds was entered before
      obtain ⟨e, he, het⟩ := hlink
      obtain ⟨f, -, -, hmirror⟩ := hrow.exists_right he
      rw [het] at hmirror
      obtain ⟨u, -, hpair⟩ := hmirror.of_struct
      exact ht.founded t u hpair
    · exact ht.founded t u htu

/-! ## Section 5: Copying -/

/-- Copying has gone on to a result: the table has grown by structs behind the `roots`, and each
    object that has come to the heap stands in a new row, or is `held` by the result. -/
structure TabledTo {α : Type} (base : Heap Ω) (copies : Copies) (h : Heap Ω) (c : Copied Ω α)
    (held : List ObjectRef) (roots : StructRef → Prop) : Prop where
  tabled : base.Tabled c.copies c.heap
  grown : h.Extends c.heap
  kept : ∀ r s, copies.Pairs r s → c.copies.Pairs r s
  behind : ∀ r s, c.copies.Pairs r s →
    copies.Pairs r s ∨ ∃ t, roots t ∧ ReflTransGen base.Links t r
  placed : (c.heap.objectsFrom base.structs.size ++ held).Perm
    (h.objectsFrom base.structs.size ++ h.newObjects c.heap)

/-- Nothing happens to a value that is no reference, nor to an empty row. -/
theorem Tabled.stay {α : Type} (ht : base.Tabled copies h) (a : α) (roots : StructRef → Prop) :
    base.TabledTo copies h ⟨a, copies, h⟩ [] roots where
  tabled := ht
  grown := .refl h
  kept _ _ hpair := hpair
  behind _ _ hpair := .inl hpair
  placed := by
    rw [newObjects_self]

/-- Two parts of a row are copied one behind the other. -/
theorem TabledTo.append {α β γ : Type} {c₁ : Copied Ω α} {c₂ : Copied Ω β}
    {held₁ held₂ : List ObjectRef} {roots₁ roots₂ roots : StructRef → Prop}
    (h₁ : base.TabledTo copies h c₁ held₁ roots₁)
    (h₂ : base.TabledTo c₁.copies c₁.heap c₂ held₂ roots₂) (hroots₁ : ∀ r, roots₁ r → roots r)
    (hroots₂ : ∀ r, roots₂ r → roots r) (c : γ) :
    base.TabledTo copies h ⟨c, c₂.copies, c₂.heap⟩ (held₁ ++ held₂) roots where
  tabled := h₂.tabled
  grown := h₁.grown.trans h₂.grown
  kept r s hpair := h₂.kept r s (h₁.kept r s hpair)
  behind r s hpair := by
    rcases h₂.behind r s hpair with hpair | ⟨t, ht, hpath⟩
    · rcases h₁.behind r s hpair with hpair | ⟨t, ht, hpath⟩
      · exact .inl hpair
      · exact .inr ⟨t, hroots₁ t ht, hpath⟩
    · exact .inr ⟨t, hroots₂ t ht, hpath⟩
  placed := by
    show (c₂.heap.objectsFrom base.structs.size ++ (held₁ ++ held₂)).Perm
      (h.objectsFrom base.structs.size ++ h.newObjects c₂.heap)
    rw [← newObjects_append h₁.grown h₂.grown, ← List.append_assoc, ← List.append_assoc]
    have hswap₂ : (c₂.heap.objectsFrom base.structs.size ++ held₁ ++ held₂).Perm
        (c₂.heap.objectsFrom base.structs.size ++ held₂ ++ held₁) := by
      rw [List.append_assoc, List.append_assoc]
      exact List.perm_append_comm.append_left _
    have hswap₁ :
        (c₁.heap.objectsFrom base.structs.size ++ c₁.heap.newObjects c₂.heap ++ held₁).Perm
          (c₁.heap.objectsFrom base.structs.size ++ held₁ ++ c₁.heap.newObjects c₂.heap) := by
      rw [List.append_assoc, List.append_assoc]
      exact List.perm_append_comm.append_left _
    exact hswap₂.trans ((h₂.placed.append_right held₁).trans
      (hswap₁.trans (h₁.placed.append_right (c₁.heap.newObjects c₂.heap))))

/-- Values that are copied one by one make a mirror of their row. -/
theorem tabledTo_copyEntries
    {copyValue : Value → Copies → Heap Ω → Option (Copied Ω Value)}
    (hcopy : ∀ v copies (h : Heap Ω) c, copyValue v copies h = some c → v.Resolves base →
      base.Tabled copies h → base.TabledTo copies h c c.result.objects (fun r => v = .struct r) ∧
        base.Mirrors c.heap c.copies.Pairs v c.result)
    (es : Entries) (hes : ∀ e ∈ es, e.2.Resolves base) {copies : Copies} {h : Heap Ω}
    (ht : base.Tabled copies h) {c : Copied Ω Entries}
    (hc : copyEntries copyValue es copies h = some c) :
    base.TabledTo copies h c c.result.objects (fun r => ∃ e ∈ es, e.2 = .struct r) ∧
      base.MirrorsRow c.heap c.copies.Pairs es c.result := by
  induction es generalizing copies h c with
  | nil =>
    cases hc
    exact ⟨ht.stay _ _, .nil⟩
  | cons entry rest ih =>
    obtain ⟨k, v⟩ := entry
    simp only [copyEntries, bind, Option.bind_eq_some_iff] at hc
    obtain ⟨c₁, hfirst, c₂, hrest, heq⟩ := hc
    cases heq
    obtain ⟨h₁, hmirror⟩ := hcopy v copies h c₁ hfirst (hes _ List.mem_cons_self) ht
    obtain ⟨h₂, hrow⟩ := ih (fun e he => hes e (List.mem_cons_of_mem _ he)) h₁.tabled hrest
    refine ⟨h₁.append h₂ ?_ ?_ _, .cons ⟨rfl, hmirror.mono h₂.kept h₂.grown⟩ hrow⟩
    · rintro r rfl
      exact ⟨_, List.mem_cons_self, rfl⟩
    · rintro r ⟨e, he, her⟩
      exact ⟨e, List.mem_cons_of_mem _ he, her⟩

/-- An object is duplicated, and other data is kept. -/
theorem tabledTo_copyWithin_leaf (levels : Nat) {v : Value} (hv : v.Resolves base)
    (hleaf : ∀ r, v ≠ .struct r) (ht : base.Tabled copies h) {c : Copied Ω Value}
    (hc : copyWithin levels v copies h = some c) :
    base.TabledTo copies h c c.result.objects (fun r => v = .struct r) ∧
      base.Mirrors c.heap c.copies.Pairs v c.result := by
  unfold copyWithin at hc
  split at hc
  · next r => exact absurd rfl (hleaf r)
  · next o =>
    have hthere := hv.2 o rfl
    have hobject : base.object? o = some base.objects[o.index] := Array.getElem?_eq_getElem hthere
    rw [ht.grown.object?_eq_some hobject] at hc
    cases hc
    have hext := h.extends_addObject base.objects[o.index].duplicate
    refine ⟨⟨ht.mono hext, hext, fun _ _ hpair => hpair, fun _ _ hpair => .inl hpair, ?_⟩,
      .object hobject ht.grown.size_objects ?_⟩
    · show (h.objectsFrom base.structs.size ++ [ObjectRef.mk h.objects.size]).Perm
        (h.objectsFrom base.structs.size ++
          h.newObjects (h.addObject base.objects[o.index].duplicate).2)
      rw [newObjects_addObject]
    · exact Array.getElem?_push_size
  · next _ hobject =>
    cases hc
    have hheld : v.objects = [] := by
      cases v with
      | object o => exact absurd rfl (hobject o)
      | _ => rfl
    dsimp only
    rw [hheld]
    exact ⟨ht.stay _ _, .data hleaf hobject⟩

/-- A copied value is a mirror, and a copied struct is entered in the table. -/
theorem tabledTo_copyWithin (hrefs : base.Resolved) (levels : Nat) (v : Value)
    (hv : v.Resolves base) {copies : Copies} {h : Heap Ω} (ht : base.Tabled copies h)
    {c : Copied Ω Value} (hc : copyWithin levels v copies h = some c) :
    base.TabledTo copies h c c.result.objects (fun r => v = .struct r) ∧
      base.Mirrors c.heap c.copies.Pairs v c.result := by
  -- on the levels, as the entries of a struct are copied with one level less
  induction levels generalizing v copies h c with
  | zero =>
    cases v with
    | struct r => cases hc
    | _ => exact tabledTo_copyWithin_leaf 0 hv (fun _ => Value.noConfusion) ht hc
  | succ below ih =>
    cases v with
    | struct r =>
      have hthere : r.index < base.structs.size := hv.1
      unfold copyWithin at hc
      dsimp only at hc
      split at hc
      · next done hdone =>
        -- it was copied before
        cases hc
        exact ⟨ht.stay _ _, .struct (mem_of_lookup hdone)⟩
      · next hlookup =>
        obtain ⟨cs, hentries, heq⟩ := Option.bind_eq_some_iff.mp hc
        cases heq
        rw [ht.grown.entries_eq hthere] at hentries
        obtain ⟨hcs, hrow⟩ := tabledTo_copyEntries
          (fun v _ _ _ hcopy hv ht => ih v hv ht hcopy) (base.entries r) (hrefs r) ht hentries
        have hnew : r ∉ cs.copies.map Prod.fst := by
          intro hmem
          obtain ⟨⟨t, s⟩, hpair, rfl⟩ := List.mem_map.mp hmem
          rcases hcs.behind t s hpair with hpair | ⟨u, ⟨e, he, heu⟩, hpath⟩
          · exact not_mem_of_lookup hlookup s hpair
          · -- it was entered behind one of its own entries, and so it holds itself
            exact not_cyclic_of_acc (hcs.tabled.founded t s hpair)
              (TransGen.head' ⟨e, he, heu⟩ hpath)
        have hext := cs.heap.extends_addStruct cs.result
        refine ⟨⟨hcs.tabled.enter hthere hnew hrow, hcs.grown.trans hext,
          fun t s hpair => List.mem_cons_of_mem _ (hcs.kept t s hpair), ?behind, ?placed⟩,
          .struct List.mem_cons_self⟩
        case behind =>
          intro t s hpair
          rcases List.mem_cons.mp hpair with heq | hpair
          · cases heq
            exact .inr ⟨r, rfl, .refl⟩
          · rcases hcs.behind t s hpair with hpair | ⟨u, ⟨e, he, heu⟩, hpath⟩
            · exact .inl hpair
            · exact .inr ⟨r, rfl, .head ⟨e, he, heu⟩ hpath⟩
        case placed =>
          have hsize := hcs.tabled.grown.size_structs
          show ((cs.heap.addStruct cs.result).2.objectsFrom base.structs.size ++ []).Perm _
          rw [objectsFrom_addStruct hsize, List.append_nil]
          exact hcs.placed
    | _ => exact tabledTo_copyWithin_leaf (below + 1) hv (fun _ => Value.noConfusion) ht hc

/-! ## Section 6: Reach -/

/-- What can be reached from a value, through the keys and the values of entries. -/
inductive Reaches (h : Heap Ω) (v : Value) : Value → Prop where
  | refl : Reaches h v v
  | key {r : StructRef} {e : Value × Value} (hr : Reaches h v (.struct r))
    (he : e ∈ h.entries r) : Reaches h v e.1
  | value {r : StructRef} {e : Value × Value} (hr : Reaches h v (.struct r))
    (he : e ∈ h.entries r) : Reaches h v e.2

section Reach

variable (hkeys : ∀ r, ∀ e ∈ base.entries r, e.1.isScalar = true) (ht : base.Tabled copies h)
  {v c : Value} (hmirror : base.Mirrors h copies.Pairs v c)

include hkeys ht hmirror

/-- Whatever is behind the value is mirrored behind the copy. -/
theorem Tabled.exists_mirror {u : Value} (hu : base.Reaches v u) :
    ∃ w, h.Reaches c w ∧ base.Mirrors h copies.Pairs u w := by
  induction hu with
  | refl => exact ⟨c, .refl, hmirror⟩
  | @key r e _ he ih =>
    obtain ⟨w, hw, hrw⟩ := ih
    obtain ⟨s, rfl, hpair⟩ := hrw.of_struct
    obtain ⟨f, hf, hef, -⟩ := (ht.rows r s hpair).exists_right he
    rw [hef]
    refine ⟨f.1, .key hw hf, mirrors_of_isScalar ?_⟩
    rw [← hef]
    exact hkeys r e he
  | @value r e _ he ih =>
    obtain ⟨w, hw, hrw⟩ := ih
    obtain ⟨s, rfl, hpair⟩ := hrw.of_struct
    obtain ⟨f, hf, -, hef⟩ := (ht.rows r s hpair).exists_right he
    exact ⟨f.2, .value hw hf, hef⟩

/-- Whatever is behind the copy mirrors something behind the value. -/
theorem Tabled.exists_original {w : Value} (hw : h.Reaches c w) :
    ∃ u, base.Reaches v u ∧ base.Mirrors h copies.Pairs u w := by
  induction hw with
  | refl => exact ⟨v, .refl, hmirror⟩
  | @key s f _ hf ih =>
    obtain ⟨u, hu, hus⟩ := ih
    obtain ⟨r, rfl, hpair⟩ := hus.to_struct
    obtain ⟨e, he, hef, -⟩ := (ht.rows r s hpair).exists_left hf
    rw [← hef]
    exact ⟨e.1, .key hu he, mirrors_of_isScalar (hkeys r e he)⟩
  | @value s f _ hf ih =>
    obtain ⟨u, hu, hus⟩ := ih
    obtain ⟨r, rfl, hpair⟩ := hus.to_struct
    obtain ⟨e, he, -, hef⟩ := (ht.rows r s hpair).exists_left hf
    exact ⟨e.2, .value hu he, hef⟩

end Reach

/-- The image of a struct, if it was copied. -/
def imageIn (copies : Copies) (r : StructRef) : StructRef :=
  (copies.lookup r).getD r

theorem Tabled.imageIn_eq (ht : base.Tabled copies h) {r s : StructRef}
    (hpair : copies.Pairs r s) : imageIn copies r = s := by
  unfold imageIn
  rw [lookup_of_mem ht.functional hpair]
  rfl

/-- The table maps the structs behind a value one to one to those behind its mirror. -/
theorem Tabled.bijOn (hkeys : ∀ r, ∀ e ∈ base.entries r, e.1.isScalar = true)
    (ht : base.Tabled copies h) {v c : Value} (hmirror : base.Mirrors h copies.Pairs v c) :
    Set.BijOn (imageIn copies) {r | base.Reaches v (.struct r)} {s | h.Reaches c (.struct s)} := by
  refine ⟨?maps, ?inj, ?surj⟩
  case maps =>
    intro r hr
    obtain ⟨w, hw, hrw⟩ := ht.exists_mirror hkeys hmirror hr
    obtain ⟨s, rfl, hpair⟩ := hrw.of_struct
    show h.Reaches c (.struct (imageIn copies r))
    rw [ht.imageIn_eq hpair]
    exact hw
  case inj =>
    intro r hr t ht' heq
    obtain ⟨w, -, hrw⟩ := ht.exists_mirror hkeys hmirror hr
    obtain ⟨s, rfl, hpair⟩ := hrw.of_struct
    obtain ⟨w', -, htw⟩ := ht.exists_mirror hkeys hmirror ht'
    obtain ⟨s', rfl, hpair'⟩ := htw.of_struct
    rw [ht.imageIn_eq hpair, ht.imageIn_eq hpair'] at heq
    have hsame := List.inj_on_of_nodup_map ht.injective hpair hpair' heq
    cases hsame
    rfl
  case surj =>
    intro s hs
    obtain ⟨u, hu, hus⟩ := ht.exists_original hkeys hmirror hs
    obtain ⟨r, rfl, hpair⟩ := hus.to_struct
    exact ⟨r, hu, ht.imageIn_eq hpair⟩

end Heap

open Heap in
/-- **Deep copies are mirror images.**  Take a heap in which every reference leads somewhere and
    all keys are scalars, and a value that is copied.

    Whatever was in the heap is as it was.  All structs and objects that can be reached from the
    copy are new.  The structs behind the value are mapped one to one to those behind the copy,
    the value to the copy: a struct and its image have the same keys in the same order, and each
    value of an entry is mirrored, a struct by its image, an object by a new duplicate, and other
    data by itself.  Each new object stands at just one place. -/
theorem copies_mirror_their_originals {Ω : Type} [HostData Ω] {h h' : Heap Ω} {v c : Value}
    {instruction : String} (hkeys : ∀ r, ∀ e ∈ h.entries r, e.1.isScalar = true)
    (hrefs : h.Resolved) (hv : v.Resolves h) (hcopy : h.deepCopy v instruction = .ok (c, h')) :
    (∀ r : StructRef, r.index < h.structs.size → h'.entries r = h.entries r) ∧
    (∀ o : ObjectRef, o.index < h.objects.size → h'.object? o = h.object? o) ∧
    (∀ s, h'.Reaches c (.struct s) → h.structs.size ≤ s.index) ∧
    (∀ p, h'.Reaches c (.object p) → h.objects.size ≤ p.index) ∧
    (∃ image : StructRef → StructRef,
      Set.BijOn image {r | h.Reaches v (.struct r)} {s | h'.Reaches c (.struct s)} ∧
      h.Mirrors h' (fun r s => image r = s) v c ∧
      ∀ r, h.Reaches v (.struct r) →
        h.MirrorsRow h' (fun r s => image r = s) (h.entries r) (h'.entries (image r))) ∧
    (h'.objectsFrom h.structs.size ++ c.objects).Perm (h.newObjects h') := by
  unfold Heap.deepCopy at hcopy
  split at hcopy
  · next done hdone =>
    cases hcopy
    obtain ⟨hcopied, hmirror⟩ := tabledTo_copyWithin hrefs maxNesting v hv (tabled_nil h) hdone
    have ht := hcopied.tabled
    have himage : ∀ r s, done.copies.Pairs r s → imageIn done.copies r = s :=
      fun r s hpair => ht.imageIn_eq hpair
    refine ⟨fun r hr => ht.grown.entries_eq hr, fun o ho => ht.grown.object?_eq ho, ?structs,
      ?objects, ⟨imageIn done.copies, ht.bijOn hkeys hmirror,
        hmirror.mono himage (.refl done.heap), ?rows⟩, ?placed⟩
    case structs =>
      intro s hs
      obtain ⟨u, -, hus⟩ := ht.exists_original hkeys hmirror hs
      obtain ⟨r, rfl, hpair⟩ := hus.to_struct
      exact (ht.new r s hpair).1
    case objects =>
      intro p hp
      obtain ⟨u, -, hup⟩ := ht.exists_original hkeys hmirror hp
      exact hup.to_object
    case rows =>
      intro r hr
      obtain ⟨w, -, hrw⟩ := ht.exists_mirror hkeys hmirror hr
      obtain ⟨s, rfl, hpair⟩ := hrw.of_struct
      rw [himage r s hpair]
      exact (ht.rows r s hpair).mono himage (.refl done.heap)
    case placed =>
      -- no struct was new at the start
      have hplaced := hcopied.placed
      rw [objectsFrom_size, List.nil_append] at hplaced
      exact hplaced
  · cases hcopy

/-- A struct that holds another one twice, and an object twice: in the copy the struct is shared
    as before, and the objects are two. -/
theorem shared_struct_stays_shared :
    let main : Context := ⟨0, "main", .ofCode #[]⟩
    let h : Heap Empty :=
      ⟨#[[(.number 0, .number 7)],
        [(.number 0, .struct ⟨0⟩), (.number 1, .struct ⟨0⟩), (.number 2, .object ⟨0⟩),
          (.number 3, .object ⟨0⟩)]], #[.context main]⟩
    ∃ h', h.deepCopy (.struct ⟨1⟩) "COPY" = .ok (.struct ⟨3⟩, h') ∧
      h'.entries ⟨3⟩ = [(.number 0, .struct ⟨2⟩), (.number 1, .struct ⟨2⟩),
        (.number 2, .object ⟨1⟩), (.number 3, .object ⟨2⟩)] ∧
      (h'.objectsFrom 2 ++ []).Perm (h.newObjects h') ∧
      ∃ image : StructRef → StructRef,
        Set.BijOn image {r | h.Reaches (.struct ⟨1⟩) (.struct r)}
          {s | h'.Reaches (.struct ⟨3⟩) (.struct s)} := by
  intro main h
  have hkeys : ∀ r, ∀ e ∈ h.entries r, e.1.isScalar = true := by
    rintro ⟨_ | _ | n⟩
    · decide
    · decide
    · nofun
  have hrefs : h.Resolved := by
    rintro ⟨_ | _ | n⟩ e he
    · obtain rfl := List.mem_singleton.mp he
      exact ⟨trivial, nofun⟩
    · have hrow : e ∈ [(Value.number 0, Value.struct ⟨0⟩), (.number 1, .struct ⟨0⟩),
          (.number 2, .object ⟨0⟩), (.number 3, .object ⟨0⟩)] := he
      simp only [List.mem_cons, List.not_mem_nil, or_false] at hrow
      rcases hrow with rfl | rfl | rfl | rfl
      · exact ⟨Nat.two_pos, nofun⟩
      · exact ⟨Nat.two_pos, nofun⟩
      · exact ⟨trivial, by rintro o ⟨⟩; exact Nat.one_pos⟩
      · exact ⟨trivial, by rintro o ⟨⟩; exact Nat.one_pos⟩
    · cases he
  have hv : (Value.struct ⟨1⟩).Resolves h := ⟨Nat.one_lt_two, nofun⟩
  obtain ⟨h', hcopy, hrow⟩ : ∃ h', h.deepCopy (.struct ⟨1⟩) "COPY" = .ok (.struct ⟨3⟩, h') ∧
      h'.entries ⟨3⟩ = [(.number 0, .struct ⟨2⟩), (.number 1, .struct ⟨2⟩),
        (.number 2, .object ⟨1⟩), (.number 3, .object ⟨2⟩)] := ⟨_, rfl, rfl⟩
  obtain ⟨-, -, -, -, ⟨image, hbij, -, -⟩, hplaced⟩ :=
    copies_mirror_their_originals hkeys hrefs hv hcopy
  exact ⟨h', hcopy, hrow, hplaced, image, hbij⟩

end ContractVM
