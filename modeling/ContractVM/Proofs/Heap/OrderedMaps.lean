import ContractVM.Proofs.Heap.Chains
import ContractVM.Proofs.Heap.Puts
import Mathlib.Data.Finset.Card
import Mathlib.Data.List.Induction

/-! # Structs as ordered maps

    Variables hold containers, and entries are put into these through whatever variable holds
    them.  All variables are none at first, while the heap may be any.

    * **Histories**: the puts into a container, through all its aliases, are what it stands for: an
      ordered map with the last value of each key, in the order in which the keys came first.
    * **Steps**: a put that succeeds makes the history longer and sets the entry, a refused one does
      neither.  So the entries of a struct are those of its history after every run. -/

namespace ContractVM

/-! ## Section 1: Histories -/

/-- Keys with the values that were put, in the order of the puts. -/
abbrev History := List (Value × Value)

namespace History

variable {puts more : History} {key value : Value}

/-- The value of the last put with this key, or none without one. -/
def latest (puts : History) (key : Value) : Value :=
  (puts.reverse.lookup key).getD .none

/-- The keys, each once and in the order in which they came first. -/
def keys (puts : History) : List Value :=
  (puts.map Prod.fst).eraseDups

/-- The ordered map that the puts make. -/
def entries (puts : History) : Entries :=
  puts.keys.map fun key => (key, puts.latest key)

theorem map_fst_entries (puts : History) : puts.entries.map Prod.fst = puts.keys := by
  simp [entries, Function.comp_def]

theorem latest_snoc (k : Value) :
    latest (puts ++ [(key, value)]) k = if k = key then value else latest puts k := by
  unfold latest
  rw [List.reverse_concat]
  by_cases hk : k = key
  · simp [hk]
  · have hbeq : (k == key) = false := beq_eq_false_iff_ne.mpr hk
    simp [hk, List.lookup_cons, hbeq]

theorem mem_keys : key ∈ puts.keys ↔ key ∈ puts.map Prod.fst :=
  List.mem_eraseDups

theorem keys_snoc :
    keys (puts ++ [(key, value)]) = if key ∈ puts.keys then puts.keys else puts.keys ++ [key] := by
  unfold keys
  rw [List.map_append, List.eraseDups_append]
  by_cases hmem : key ∈ puts.map Prod.fst
  · simp [List.removeAll, hmem]
  · simp [List.removeAll, hmem, List.eraseDups_cons]

/-- Keys never move. -/
theorem keys_prefix (h : puts <+: more) : puts.keys <+: more.keys := by
  obtain ⟨later, rfl⟩ := h
  unfold keys
  rw [List.map_append, List.eraseDups_append]
  exact List.prefix_append _ _

theorem nodup_keys (puts : History) : puts.keys.Nodup := by
  induction puts using List.reverseRecOn with
  | nil => exact List.nodup_nil
  | append_singleton puts put ih =>
    obtain ⟨key, value⟩ := put
    rw [keys_snoc]
    by_cases hmem : key ∈ keys puts
    · rw [if_pos hmem]
      exact ih
    · rw [if_neg hmem]
      exact List.concat_eq_append ▸ ih.concat hmem

theorem length_keys (puts : History) :
    puts.keys.length = (puts.map Prod.fst).toFinset.card := by
  rw [← List.toFinset_card_of_nodup puts.nodup_keys]
  congr 1
  ext key
  simp [mem_keys]

/-- Setting an entry in a row of distinct keys changes the value of one key, or adds the key. -/
theorem insert_map {same : Value → Value → Bool} (hsame : ∀ k, same k key = decide (k = key))
    {ks : List Value} (hks : ks.Nodup) (f : Value → Value) :
    Entries.insert same key value (ks.map fun k => (k, f k)) =
      (if key ∈ ks then ks else ks ++ [key]).map fun k => (k, if k = key then value else f k) := by
  induction ks with
  | nil => simp [Entries.insert]
  | cons k ks ih =>
    obtain ⟨hk, hks⟩ := List.nodup_cons.mp hks
    by_cases heq : k = key
    · subst heq
      -- the other keys differ from this one, so they keep their values
      have hothers : ∀ k' ∈ ks, k' = k → f k' = value := fun k' hk' heq => absurd (heq ▸ hk') hk
      simpa [Entries.insert, hsame] using hothers
    · by_cases hmem : key ∈ ks
      · simp [Entries.insert, hsame, heq, ih hks, hmem]
      · simp [Entries.insert, hsame, heq, ih hks, hmem, Ne.symm heq]

theorem insert_entries {same : Value → Value → Bool}
    (hsame : ∀ k, same k key = decide (k = key)) :
    Entries.insert same key value puts.entries = entries (puts ++ [(key, value)]) := by
  unfold entries
  rw [insert_map hsame puts.nodup_keys, keys_snoc]
  simp [latest_snoc]

theorem latest_of_not_mem (h : key ∉ puts.keys) : puts.latest key = .none := by
  have hlookup : puts.reverse.lookup key = none := by
    apply List.lookup_eq_none_iff.mpr
    intro put hput
    apply bne_iff_ne.mpr
    rintro rfl
    exact h (mem_keys.mpr (List.mem_map_of_mem (List.mem_reverse.mp hput)))
  unfold latest
  rw [hlookup]
  rfl

/-- Reading the ordered map gives the value of the last put. -/
theorem get?_entries {same : Value → Value → Bool} (hsame : ∀ k, same k key = decide (k = key)) :
    (Entries.get? same key puts.entries).getD .none = puts.latest key := by
  unfold Entries.get? entries
  rw [List.find?_map]
  cases hfind : puts.keys.find? ((fun entry => same entry.1 key) ∘ fun k => (k, puts.latest k)) with
  | none =>
    have hmiss : key ∉ puts.keys := by
      intro hmem
      simpa [hsame] using List.find?_eq_none.mp hfind key hmem
    rw [latest_of_not_mem hmiss]
    rfl
  | some k =>
    have hk : k = key := by simpa [hsame] using List.find?_some hfind
    rw [hk]
    rfl

end History

/-! ## Section 2: Variables -/

/-- Variables, the heap that they refer to, and what was put so far. -/
structure Variables (Ω Name : Type) where
  value : Name → Value
  heap : Heap Ω
  /-- The puts that succeeded, each with the struct that took it. -/
  log : List (StructRef × Value × Value)

/-- What is done with variables. -/
inductive Variables.Action (Name : Type) where
  /-- An entry is put into the container that `x` holds. -/
  | put (x : Name) (key value : Value) (instruction : String)
  /-- `x` becomes an alias of `y`. -/
  | assign (x y : Name)

namespace Variables

variable {Ω Name : Type}

/-- All variables are none at the start. -/
def start (h : Heap Ω) : Variables Ω Name :=
  ⟨fun _ => .none, h, []⟩

/-- A variable whose none became a struct holds that struct.  A refused put is not logged. -/
def step [HostData Ω] [DecidableEq Name] (s : Variables Ω Name) : Action Name → Variables Ω Name
  | .put x key value instruction =>
    let put := s.heap.put (s.value x) key value instruction
    { value := Function.update s.value x put.container
      heap := put.heap
      log := match put.result, put.container with
        | .ok (), .struct r => s.log ++ [(r, key, value)]
        | _, _ => s.log }
  | .assign x y => { s with value := Function.update s.value x (s.value y) }

def run [HostData Ω] [DecidableEq Name] (s : Variables Ω Name) (actions : List (Action Name)) :
    Variables Ω Name :=
  actions.foldl step s

/-- The puts into a container, whichever variable they were made through. -/
def history (s : Variables Ω Name) (container : Value) : History :=
  (s.log.filter fun put => container = .struct put.1).map Prod.snd

variable {s : Variables Ω Name} {h h' : Heap Ω} {r : StructRef}

theorem history_none : s.history .none = [] := by
  simp [history]

theorem history_log_snoc (value : Name → Value) (heap : Heap Ω) (q : StructRef)
    (put : Value × Value) :
    history ⟨value, heap, s.log ++ [(r, put)]⟩ (.struct q) =
      if q = r then s.history (.struct q) ++ [put] else s.history (.struct q) := by
  unfold history
  by_cases hr : q = r
  · simp [hr]
  · simp [hr]

/-! ## Section 3: Every struct holds the entries of its history -/

/-- Variables hold only structs that are not in the heap `h`, and these have the entries of their
    histories. -/
structure Tracked (h : Heap Ω) (s : Variables Ω Name) : Prop where
  size_le : h.structs.size ≤ s.heap.structs.size
  held : ∀ x, s.value x = .none ∨ ∃ r, s.value x = .struct r ∧
    h.structs.size ≤ r.index ∧ r.index < s.heap.structs.size
  entries : ∀ r, h.structs.size ≤ r.index → s.heap.entries r = (s.history (.struct r)).entries

theorem tracked_start (h : Heap Ω) : Tracked h (start h : Variables Ω Name) where
  size_le := Nat.le_refl _
  held _ := .inl rfl
  entries _ hr := Heap.entries_of_size_le hr

/-- The struct that a variable holds is none of the first heap. -/
theorem Tracked.bounds (hs : Tracked h s) {x : Name} (hx : s.value x = .struct r) :
    h.structs.size ≤ r.index ∧ r.index < s.heap.structs.size := by
  rcases hs.held x with hnone | ⟨q, hq, hnew, hthere⟩
  · simp [hx] at hnone
  · obtain rfl : r = q := by simpa [hx] using hq
    exact ⟨hnew, hthere⟩

/-- A variable holds an ordered map, which is empty as long as it is none. -/
theorem Tracked.get_eq [HostData Ω] (hs : Tracked h s) (x : Name) {key : Value}
    (hkey : key.isScalar = true) (instruction : String) :
    s.heap.get (s.value x) key instruction = .ok ((s.history (s.value x)).latest key) := by
  unfold Heap.get
  rw [Value.asKey_of_isScalar instruction hkey]
  rcases hs.held x with hnone | ⟨r, hr, hnew, -⟩
  · rw [hnone, history_none]
    rfl
  · rw [hr]
    show Except.ok ((Entries.get? s.heap.sameKey key (s.heap.entries r)).getD .none) = _
    rw [hs.entries r hnew, History.get?_entries fun k => s.heap.sameKey_of_scalar k hkey]

theorem Tracked.count_eq (hs : Tracked h s) (x : Name) (instruction : String) :
    s.heap.count (s.value x) instruction = .ok (s.history (s.value x)).keys.length := by
  rcases hs.held x with hnone | ⟨r, hr, hnew, -⟩
  · rw [hnone, history_none]
    rfl
  · rw [hr]
    show Except.ok (s.heap.entries r).length = _
    rw [hs.entries r hnew]
    simp [History.entries]

/-! ## Section 4: Steps and runs -/

/-- What an open container refers to is a struct that a variable may hold. -/
theorem Tracked.opens (hs : Tracked h s) {x : Name} (hopens : s.heap.Opens (s.value x) r h') :
    h.structs.size ≤ r.index ∧ r.index < h'.structs.size ∧
      s.heap.structs.size ≤ h'.structs.size := by
  generalize hx : s.value x = v at hopens
  cases hopens with
  | struct r => exact ⟨(hs.bounds hx).1, (hs.bounds hx).2, Nat.le_refl _⟩
  | none => exact ⟨hs.size_le, s.heap.size_lt_newStruct, Nat.le_of_lt s.heap.size_lt_newStruct⟩

/-- Setting an entry and logging it keep the entries and the history of the struct together. -/
theorem Tracked.stored [HostData Ω] (hs : Tracked h s) (hthere : r.index < s.heap.structs.size)
    {key : Value} (hkey : key.isScalar = true) (value : Value) :
    Tracked h ⟨s.value, s.heap.insertEntry r key value, s.log ++ [(r, key, value)]⟩ := by
  have hsize : (s.heap.insertEntry r key value).structs.size = s.heap.structs.size :=
    s.heap.size_setEntries r _
  refine ⟨hsize ▸ hs.size_le, hsize ▸ hs.held, fun q hq => ?_⟩
  rw [history_log_snoc]
  unfold Heap.insertEntry
  rw [Heap.entries_setEntries]
  by_cases hr : r = q
  · -- the put comes last in the history, and the entry comes where the ordered map has it
    subst hr
    rw [if_pos ⟨rfl, hthere⟩, if_pos rfl, hs.entries r hq]
    exact History.insert_entries fun k => s.heap.sameKey_of_scalar k hkey
  · rw [if_neg fun hboth => hr hboth.1, if_neg (Ne.symm hr)]
    exact hs.entries q hq

variable [DecidableEq Name]

/-- A variable may hold what another one holds. -/
theorem Tracked.assigned (hs : Tracked h s) (x y : Name) :
    Tracked h { s with value := Function.update s.value x (s.value y) } where
  size_le := hs.size_le
  held z := by
    by_cases hz : z = x
    · simpa [hz] using hs.held y
    · simpa [hz] using hs.held z
  entries := hs.entries

/-- Opening a container changes no entries, so a new struct has none, as its history says. -/
theorem Tracked.opened (hs : Tracked h s) {x : Name} (hopens : s.heap.Opens (s.value x) r h') :
    Tracked h ⟨Function.update s.value x (.struct r), h', s.log⟩ := by
  obtain ⟨hnew, hthere, hgrows⟩ := hs.opens hopens
  refine ⟨Nat.le_trans hs.size_le hgrows, fun z => ?_, fun q hq => ?_⟩
  · by_cases hz : z = x
    · subst hz
      exact .inr ⟨r, Function.update_self .., hnew, hthere⟩
    · simp only [Function.update_of_ne hz]
      rcases hs.held z with hnone | ⟨q, hq, hqnew, hqthere⟩
      · exact .inl hnone
      · exact .inr ⟨q, hq, hqnew, Nat.lt_of_lt_of_le hqthere hgrows⟩
  · exact (hopens.entries_eq q).trans (hs.entries q hq)

variable [HostData Ω]

/-- Whatever is done with variables, the histories go on. -/
theorem Tracked.step (hs : Tracked h s) (action : Action Name) : Tracked h (s.step action) := by
  cases action with
  | assign x y => exact hs.assigned x y
  | put x key value instruction =>
    have hputs := s.heap.puts_put (s.value x) key value instruction
    unfold Variables.step
    simp only
    generalize s.heap.put (s.value x) key value instruction = put at hputs ⊢
    -- a put is refused before the container is opened, or behind that, or it succeeds
    cases hputs with
    | badKey => simpa using hs
    | badContainer => simpa using hs
    | cyclic _ hopens => exact hs.opened hopens
    | tooDeep _ hopens => exact hs.opened hopens
    | stored hkey hopens => exact (hs.opened hopens).stored (hs.opens hopens).2.1 hkey value

theorem Tracked.run (hs : Tracked h s) (actions : List (Action Name)) :
    Tracked h (s.run actions) := by
  induction actions generalizing s with
  | nil => exact hs
  | cons action actions ih => exact ih (hs.step action)

/-! ## Section 5: Histories only grow -/

theorem log_step (s : Variables Ω Name) (action : Action Name) : s.log <+: (s.step action).log := by
  cases action with
  | assign x y => exact List.prefix_rfl
  | put x key value instruction =>
    unfold step
    simp only
    split
    · exact List.prefix_append _ _
    · exact List.prefix_rfl

theorem log_run (s : Variables Ω Name) (actions : List (Action Name)) :
    s.log <+: (s.run actions).log := by
  induction actions generalizing s with
  | nil => exact List.prefix_rfl
  | cons action actions ih => exact (s.log_step action).trans (ih (s.step action))

theorem history_run (s : Variables Ω Name) (actions : List (Action Name)) (container : Value) :
    s.history container <+: (s.run actions).history container :=
  ((s.log_run actions).filter _).map _

end Variables

open Variables in
/-- **Structs are insertion-ordered maps.**  Start with variables that are none and any heap, and
    put entries into the containers that they hold, in any order, with variables becoming aliases
    of others in between.  Then whatever variable holds a container, the value of a key is the one
    that was put last with this key, and none if there was no such put.  The count is the number
    of distinct keys.  The entries are these keys with their last values, each key once and in the
    order in which they came first.  What is done later leaves these keys where they are. -/
theorem structs_are_insertion_ordered_maps {Ω Name : Type} [HostData Ω] [DecidableEq Name]
    (h : Heap Ω) (actions : List (Action Name)) (x : Name) :
    let s := (start h).run actions
    let puts := s.history (s.value x)
    (∀ key instruction, key.isScalar = true →
      s.heap.get (s.value x) key instruction = .ok (puts.latest key)) ∧
    (∀ instruction, s.heap.count (s.value x) instruction =
      .ok (puts.map Prod.fst).toFinset.card) ∧
    (∀ r, s.value x = .struct r → s.heap.entries r = puts.entries) ∧
    puts.keys.Nodup ∧
    (∀ r more, s.value x = .struct r →
      (s.heap.entries r).map Prod.fst <+: ((s.run more).heap.entries r).map Prod.fst) := by
  intro s puts
  have hs : Tracked h s := (tracked_start h).run actions
  refine ⟨fun key instruction hkey => hs.get_eq x hkey instruction, fun instruction => ?_,
    fun r hr => ?_, puts.nodup_keys, fun r more hr => ?_⟩
  · rw [hs.count_eq, History.length_keys]
  · rw [hs.entries r (hs.bounds hr).1, ← hr]
  · -- the history goes on, so the keys that came first in it stay in front
    rw [hs.entries r (hs.bounds hr).1, (hs.run more).entries r (hs.bounds hr).1,
      History.map_fst_entries, History.map_fst_entries]
    exact History.keys_prefix (s.history_run more _)

open Variables in
/-- One is a key in four types.  The second variable is an alias from the second put on, and puts
    the first key again. -/
theorem ones_of_four_types_are_four_keys :
    let actions : List (Action Bool) :=
      [.put true (.number 1) (.bool true) "PUT", .assign false true,
        .put false (.enum 1) (.bool true) "PUT", .put true (.timestamp 1) (.bool true) "PUT",
        .put true (.string "1") (.bool true) "PUT", .put false (.number 1) (.bool false) "PUT"]
    let s := (start (Heap.empty : Heap Empty)).run actions
    s.heap.count (s.value true) "COUNT" = .ok 4 ∧
    s.heap.get (s.value true) (.number 1) "GET" = .ok (.bool false) ∧
    s.heap.get (s.value true) (.bytes #[1]) "GET" = .ok .none ∧
    s.heap.entries ⟨0⟩ = [(.number 1, .bool false), (.enum 1, .bool true),
      (.timestamp 1, .bool true), (.string "1", .bool true)] := by
  intro actions s
  obtain ⟨hget, hcount, hentries, -⟩ :=
    structs_are_insertion_ordered_maps (Heap.empty : Heap Empty) actions true
  have hputs : s.history (s.value true) = [(.number 1, .bool true), (.enum 1, .bool true),
      (.timestamp 1, .bool true), (.string "1", .bool true), (.number 1, .bool false)] := by
    decide +kernel
  refine ⟨(hcount _).trans ?_, (hget _ _ rfl).trans ?_, (hget _ _ rfl).trans ?_,
    (hentries ⟨0⟩ (by decide +kernel)).trans ?_⟩
  · show Except.ok ((s.history (s.value true)).map Prod.fst).toFinset.card = _
    rw [hputs]
    rfl
  · show Except.ok ((s.history (s.value true)).latest _) = _
    rw [hputs]
    rfl
  · show Except.ok ((s.history (s.value true)).latest _) = _
    rw [hputs]
    rfl
  · show (s.history (s.value true)).entries = _
    rw [hputs]
    rfl

end ContractVM
