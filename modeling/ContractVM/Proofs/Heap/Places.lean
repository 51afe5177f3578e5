import ContractVM.Proofs.Heap.FirstPaths

/-! # Places of objects

    A struct is copied once, but an object is duplicated for each entry that holds it.  So a copy
    shares objects just as far as it shares structs:

    * **Places**: an entry that holds an object is found on a path, at a position.  The paths of a
      value lead through its copy in the same way.
    * **One place each**: no new object stands at two places, since each of them was added for one
      entry.
    * **Changes in place** are seen through an entry of the copy only if the object was reached
      through that very entry. -/

namespace ContractVM

namespace Heap

variable {Ω : Type} {h h' : Heap Ω}

/-! ## Section 1: Places -/

/-- Does the path lead from `r` to the struct `t`, and does entry `k` of it hold the object? -/
structure HoldsAt (h : Heap Ω) (r : StructRef) (is : List Nat) (t : StructRef) (k : Nat)
    (o : ObjectRef) : Prop where
  path : h.Path r is t
  entry : ∃ key, (h.entries t)[k]? = some (key, .object o)

/-- A path leads to one struct only. -/
theorem Path.unique {r t u : StructRef} {is : List Nat} (ht : h.Path r is t)
    (hu : h.Path r is u) : t = u := by
  induction ht with
  | nil =>
    cases hu
    rfl
  | cons hentry _ ih =>
    cases hu with
    | cons hentry' hrest =>
      cases hentry.symm.trans hentry'
      exact ih hrest

/-! ## Section 2: One place for each object -/

/-- If nothing comes up twice in a row of rows, then each element is in one row only. -/
theorem eq_of_nodup_flatMap {α β : Type} {f : α → List β} {as : List α}
    (hnodup : (as.flatMap f).Nodup) {i j : Nat} {a a' : α} {b : β} (hi : as[i]? = some a)
    (hj : as[j]? = some a') (ha : b ∈ f a) (ha' : b ∈ f a') : i = j := by
  obtain ⟨hilt, rfl⟩ := List.getElem?_eq_some_iff.mp hi
  obtain ⟨hjlt, rfl⟩ := List.getElem?_eq_some_iff.mp hj
  have hapart := List.pairwise_iff_getElem.mp (List.nodup_flatMap.mp hnodup).2
  rcases Nat.lt_trichotomy i j with hlt | heq | hgt
  · exact absurd ha' (hapart i j hilt hjlt hlt ha)
  · exact heq
  · exact absurd ha (hapart j i hjlt hilt hgt ha')

/-- If no object comes up twice behind the first `n` structs, then an object that stands there has
    one place. -/
theorem place_unique {n : Nat} (hnodup : (h.objectsFrom n).Nodup) {s u : StructRef}
    (hs : n ≤ s.index) (hu : n ≤ u.index) {k l : Nat} {key key' : Value} {p : ObjectRef}
    (hk : (h.entries s)[k]? = some (key, .object p))
    (hl : (h.entries u)[l]? = some (key', .object p)) : s = u ∧ k = l := by
  have hrow : ∀ {t : StructRef} {i : Nat} {key : Value}, n ≤ t.index →
      (h.entries t)[i]? = some (key, .object p) →
      (h.structs.toList.drop n)[t.index - n]? = some (h.entries t) ∧
        p ∈ (h.entries t).objects := by
    intro t i key ht hi
    have hmem := List.mem_of_getElem? hi
    have hthere := lt_size_of_entries_ne_nil (List.ne_nil_of_mem hmem)
    constructor
    · rw [List.getElem?_drop, Nat.add_sub_cancel' ht, Array.getElem?_toList]
      unfold entries
      simp [hthere]
    · exact List.mem_flatMap.mpr ⟨_, hmem, List.mem_singleton_self p⟩
  obtain ⟨hrowS, hpS⟩ := hrow hs hk
  obtain ⟨hrowU, hpU⟩ := hrow hu hl
  -- first the rows are the same, then the positions in the row
  have hindex := eq_of_nodup_flatMap hnodup hrowS hrowU hpS hpU
  have hsu : s = u := by
    cases s
    cases u
    simp only [StructRef.mk.injEq] at hs hu hindex ⊢
    omega
  subst hsu
  have hnodupRow := (List.nodup_flatMap.mp hnodup).1 _ (List.mem_of_getElem? hrowS)
  exact ⟨rfl, eq_of_nodup_flatMap hnodupRow hk hl (List.mem_singleton_self p)
    (List.mem_singleton_self p)⟩

theorem nodup_newObjects (h h' : Heap Ω) : (h.newObjects h').Nodup := by
  refine List.Nodup.map ?_ List.nodup_range'
  intro m n heq
  exact congrArg ObjectRef.index heq

/-- A change in place is seen through a reference just if it is the same. -/
theorem object?_setObject {p : ObjectRef} (hp : p.index < h.objects.size) (q : ObjectRef)
    (x : HostObject Ω) :
    (h.setObject p x).object? q = if p = q then some x else h.object? q := by
  show (h.objects.setIfInBounds p.index x)[q.index]? = _
  by_cases hpq : p = q
  · subst hpq
    rw [if_pos rfl, Array.getElem?_setIfInBounds_self_of_lt hp]
  · have hindex : p.index ≠ q.index := by
      intro heq
      exact hpq (congrArg ObjectRef.mk heq)
    rw [if_neg hpq, Array.getElem?_setIfInBounds_ne hindex]
    rfl

/-! ## Section 3: Places in a copy -/

variable [HostData Ω]

theorem MirrorsRow.exists_at {image : StructRef → StructRef → Prop} {es fs : Entries}
    (hrow : h.MirrorsRow h' image es fs) {i : Nat} {e : Value × Value} (hi : es[i]? = some e) :
    ∃ f, fs[i]? = some f ∧ e.1 = f.1 ∧ h.Mirrors h' image e.2 f.2 := by
  obtain ⟨hlt, rfl⟩ := List.getElem?_eq_some_iff.mp hi
  have hlt' : i < fs.length := hrow.length_eq ▸ hlt
  exact ⟨fs[i], List.getElem?_eq_getElem hlt', hrow.get hlt hlt'⟩

variable {base : Heap Ω} {copies : Copies}

/-- A path leads from the image of a struct as it leads from the struct. -/
theorem Tabled.exists_path (ht : base.Tabled copies h) {r s t : StructRef} {is : List Nat}
    (hpair : copies.Pairs r s) (hpath : base.Path r is t) :
    ∃ u, copies.Pairs t u ∧ h.Path s is u := by
  induction hpath generalizing s with
  | nil => exact ⟨s, hpair, .nil s⟩
  | cons hentry _ ih =>
    obtain ⟨⟨key, w⟩, hentry', -, hmirror⟩ := (ht.rows _ s hpair).exists_at hentry
    obtain ⟨s', rfl, hpair'⟩ := hmirror.of_struct
    obtain ⟨u, hu, hpath'⟩ := ih hpair'
    exact ⟨u, hu, .cons hentry' hpath'⟩

/-- At the place of an object there is a duplicate of it. -/
theorem Tabled.exists_holdsAt (ht : base.Tabled copies h) {r s t : StructRef} {is : List Nat}
    {k : Nat} {o : ObjectRef} (hpair : copies.Pairs r s) (ho : base.HoldsAt r is t k o) :
    ∃ u p x, copies.Pairs t u ∧ h.HoldsAt s is u k p ∧ base.object? o = some x ∧
      h.object? p = some x.duplicate := by
  obtain ⟨u, hu, hpath⟩ := ht.exists_path hpair ho.path
  obtain ⟨key, hentry⟩ := ho.entry
  obtain ⟨⟨key', w⟩, hentry', -, hmirror⟩ := (ht.rows t u hu).exists_at hentry
  cases hmirror with
  | object hold _ hcopy => exact ⟨u, _, _, hu, ⟨hpath, key', hentry'⟩, hold, hcopy⟩
  | data _ hobject => exact absurd rfl (hobject o)

/-- Each object that is put into the heap by copying a struct stands at just one place. -/
theorem nodup_objectsFrom_of_copyWithin (hrefs : h.Resolved) {r : StructRef}
    (hr : (Value.struct r).Resolves h) {levels : Nat} {c : Copied Ω Value}
    (hc : copyWithin levels (.struct r) [] h = some c) :
    (c.heap.objectsFrom h.structs.size).Nodup := by
  obtain ⟨hcopied, -⟩ := tabledTo_copyWithin hrefs levels _ hr (tabled_nil h) hc
  have hplaced := hcopied.placed
  rw [objectsFrom_size, List.nil_append] at hplaced
  exact (List.nodup_append.mp (hplaced.nodup_iff.mpr (nodup_newObjects h c.heap))).1

end Heap

open Heap in
/-- **A copy shares objects only where it shares structs.**  Take a heap in which every reference
    leads somewhere, and a struct that is copied.

    Each path from the struct leads through the copy, too.  Where an entry at its end holds an
    object, the entry at the same place of the copy holds a duplicate of it.  The entries at two
    places of the copy hold one object just if the two paths lead to one struct and the positions in
    it are the same, whatever objects stand at the two places of the original.  Just then a change
    of the object at the one place is seen at the other. -/
theorem copies_share_objects_only_with_structs {Ω : Type} [HostData Ω] {h h' : Heap Ω}
    {r : StructRef} {c : Value} {instruction : String} (hrefs : h.Resolved)
    (hr : r.index < h.structs.size) (hcopy : h.deepCopy (.struct r) instruction = .ok (c, h')) :
    ∃ s, c = .struct s ∧
      (∀ is t k o, h.HoldsAt r is t k o → ∃ u p x, h'.HoldsAt s is u k p ∧
        h.object? o = some x ∧ h'.object? p = some x.duplicate) ∧
      ∀ is t k o u p js t' l o' u' p', h.HoldsAt r is t k o → h.HoldsAt r js t' l o' →
        h'.HoldsAt s is u k p → h'.HoldsAt s js u' l p' →
        (p = p' ↔ t = t' ∧ k = l) ∧
        ∀ y, (h'.setObject p y).object? p' =
          if t = t' ∧ k = l then some y else h'.object? p' := by
  unfold Heap.deepCopy at hcopy
  split at hcopy
  · next done hdone =>
    cases hcopy
    have hresolves : (Value.struct r).Resolves h := ⟨hr, nofun⟩
    obtain ⟨hcopied, hmirror⟩ :=
      tabledTo_copyWithin hrefs maxNesting _ hresolves (tabled_nil h) hdone
    have ht := hcopied.tabled
    have hnodup := nodup_objectsFrom_of_copyWithin hrefs hresolves hdone
    obtain ⟨s, hs, hpair⟩ := hmirror.of_struct
    refine ⟨s, hs, ?there, ?shared⟩
    case there =>
      intro is t k o ho
      obtain ⟨u, p, x, -, hp, hold, hnew⟩ := ht.exists_holdsAt hpair ho
      exact ⟨u, p, x, hp, hold, hnew⟩
    case shared =>
      intro is t k o u p js t' l o' u' p' ho ho' hp hp'
      -- the paths lead to the images of the structs that they lead to in the original
      obtain ⟨v, q, x, htv, hq, -, hqx⟩ := ht.exists_holdsAt hpair ho
      obtain ⟨v', q', x', htv', hq', -, -⟩ := ht.exists_holdsAt hpair ho'
      cases hp.path.unique hq.path
      cases hp'.path.unique hq'.path
      obtain ⟨key, hk⟩ := hp.entry
      obtain ⟨key', hl⟩ := hp'.entry
      obtain ⟨_, hk'⟩ := hq.entry
      cases hk.symm.trans hk'
      have hshared : p = p' ↔ t = t' ∧ k = l := by
        constructor
        · rintro rfl
          obtain ⟨rfl, rfl⟩ :=
            place_unique hnodup (ht.new t u htv).1 (ht.new t' u' htv').1 hk hl
          have hsame := List.inj_on_of_nodup_map ht.injective htv htv' rfl
          exact ⟨congrArg Prod.fst hsame, rfl⟩
        · rintro ⟨rfl, rfl⟩
          have huu : u = u' := (ht.imageIn_eq htv).symm.trans (ht.imageIn_eq htv')
          subst huu
          cases hk.symm.trans hl
          rfl
      refine ⟨hshared, fun y => ?_⟩
      have hthere : p.index < done.heap.objects.size := (Array.getElem?_eq_some_iff.mp hqx).1
      rw [object?_setObject hthere]
      simp only [hshared]
  · cases hcopy

/-- A struct that is held twice and holds an object, which the outer struct holds, too: in the copy
    the two ways into the struct lead to one object, and the outer entry holds another one. -/
theorem copy_of_shared_struct_shares_its_object :
    let _ : HostData String := ⟨fun _ => "Address", fun x y => x == y, id⟩
    let h : Heap String :=
      ⟨#[[(.number 0, .object ⟨0⟩)],
        [(.number 0, .struct ⟨0⟩), (.number 1, .struct ⟨0⟩), (.number 2, .object ⟨0⟩)]],
        #[.datum "alice"]⟩
    ∃ h', h.deepCopy (.struct ⟨1⟩) "COPY" = .ok (.struct ⟨3⟩, h') ∧
      h'.HoldsAt ⟨3⟩ [0] ⟨2⟩ 0 ⟨1⟩ ∧ h'.HoldsAt ⟨3⟩ [1] ⟨2⟩ 0 ⟨1⟩ ∧ h'.HoldsAt ⟨3⟩ [] ⟨3⟩ 2 ⟨2⟩ ∧
      ∀ y, (h'.setObject ⟨1⟩ y).object? ⟨1⟩ = some y ∧
        (h'.setObject ⟨1⟩ y).object? ⟨2⟩ = h'.object? ⟨2⟩ := by
  intro _ h
  have hrefs : h.Resolved := by
    rintro ⟨_ | _ | n⟩ e he
    · cases List.mem_singleton.mp he
      exact ⟨trivial, by rintro o ⟨⟩; exact Nat.one_pos⟩
    · have hrow : e ∈ [(Value.number 0, Value.struct ⟨0⟩), (.number 1, .struct ⟨0⟩),
          (.number 2, .object ⟨0⟩)] := he
      simp only [List.mem_cons, List.not_mem_nil, or_false] at hrow
      rcases hrow with rfl | rfl | rfl
      · exact ⟨Nat.two_pos, nofun⟩
      · exact ⟨Nat.two_pos, nofun⟩
      · exact ⟨trivial, by rintro o ⟨⟩; exact Nat.one_pos⟩
    · cases he
  have inner : h.HoldsAt ⟨1⟩ [0] ⟨0⟩ 0 ⟨0⟩ := ⟨.cons rfl (.nil _), _, rfl⟩
  have inner' : h.HoldsAt ⟨1⟩ [1] ⟨0⟩ 0 ⟨0⟩ := ⟨.cons rfl (.nil _), _, rfl⟩
  have outer : h.HoldsAt ⟨1⟩ [] ⟨1⟩ 2 ⟨0⟩ := ⟨.nil _, _, rfl⟩
  obtain ⟨h', hcopy, copied, copied', apart⟩ :
      ∃ h', h.deepCopy (.struct ⟨1⟩) "COPY" = .ok (.struct ⟨3⟩, h') ∧
        h'.HoldsAt ⟨3⟩ [0] ⟨2⟩ 0 ⟨1⟩ ∧ h'.HoldsAt ⟨3⟩ [1] ⟨2⟩ 0 ⟨1⟩ ∧ h'.HoldsAt ⟨3⟩ [] ⟨3⟩ 2 ⟨2⟩ :=
    ⟨_, rfl, ⟨.cons rfl (.nil _), _, rfl⟩, ⟨.cons rfl (.nil _), _, rfl⟩, ⟨.nil _, _, rfl⟩⟩
  obtain ⟨s, hs, -, hshared⟩ := copies_share_objects_only_with_structs hrefs Nat.one_lt_two hcopy
  cases hs
  refine ⟨h', hcopy, copied, copied', apart, fun y => ⟨?_, ?_⟩⟩
  · have hseen := (hshared _ _ _ _ _ _ _ _ _ _ _ _ inner inner' copied copied').2 y
    rwa [if_pos ⟨rfl, rfl⟩] at hseen
  · have hunseen := (hshared _ _ _ _ _ _ _ _ _ _ _ _ inner outer copied apart).2 y
    rwa [if_neg (by decide)] at hunseen

/-- A struct that holds an object twice: a change of it is seen through both entries, but in the
    copy they hold two objects, and what is changed through the first is not seen through the
    second. -/
theorem object_held_twice_becomes_two :
    let _ : HostData String := ⟨fun _ => "Address", fun x y => x == y, id⟩
    let h : Heap String :=
      ⟨#[[(.number 0, .object ⟨0⟩), (.number 1, .object ⟨0⟩)]], #[.datum "alice"]⟩
    ∃ h', h.deepCopy (.struct ⟨0⟩) "COPY" = .ok (.struct ⟨1⟩, h') ∧
      h.HoldsAt ⟨0⟩ [] ⟨0⟩ 0 ⟨0⟩ ∧ h.HoldsAt ⟨0⟩ [] ⟨0⟩ 1 ⟨0⟩ ∧
      h'.HoldsAt ⟨1⟩ [] ⟨1⟩ 0 ⟨1⟩ ∧ h'.HoldsAt ⟨1⟩ [] ⟨1⟩ 1 ⟨2⟩ ∧
      (h.setObject ⟨0⟩ (.datum "bob")).object? ⟨0⟩ = some (.datum "bob") ∧
      (h'.setObject ⟨1⟩ (.datum "bob")).object? ⟨2⟩ = some (.datum "alice") := by
  intro _ h
  exact ⟨_, rfl, ⟨.nil _, _, rfl⟩, ⟨.nil _, _, rfl⟩, ⟨.nil _, _, rfl⟩, ⟨.nil _, _, rfl⟩, rfl, rfl⟩

end ContractVM
