import ContractVM.Command.Execute
import ContractVM.Proofs.Assembly.Labels
import ContractVM.Proofs.Machine.Registers
import ContractVM.Proofs.Machine.Rows
import ContractVM.Proofs.Machine.Steps

/-! # The dispatcher at work

    A frame that starts at offset 0 of a script with public labels pops a selector and
    compares it with the name of each public label in turn:

    * **In the code**: the dispatcher is placed first, its jumps lead to the methods.
    * **One comparison**: it jumps if the selector is the name, and goes on otherwise.
    * **All comparisons**: by induction over the names that are left. -/

namespace ContractVM

open Assembly

/-! ## Section 1: The dispatcher in the code -/

/-- The placed comparison with one name; `offsetOf` says where its method is. -/
def placedCase (offsetOf : String → UInt32) (name : String) : List (Instr UInt32) :=
  [⟨.load, (30, .string name, ())⟩,
    ⟨.equal, (31, 30, 29, ())⟩,
    ⟨.jmpIf, (29, offsetOf name, ())⟩]

/-- The placed dispatcher. -/
def placedDispatch (offsetOf : String → UInt32) (names : List String) : List (Instr UInt32) :=
  [⟨.pop, (31, ())⟩] ++ names.flatMap (placedCase offsetOf) ++ [⟨.ret, ()⟩]

/-- The comparisons are placed with their labels resolved. -/
theorem placed_dispatchCases {labels : List (String × Nat)} {offsetOf : String → UInt32}
    {names : List String} {ss : List Statement} {placed : List (Instr UInt32)}
    (hoffset : ∀ name ∈ names, Address.resolve labels (.label name) = .ok (offsetOf name))
    (h : List.Forall₂ (Statement.Resolves labels)
      ((names.flatMap dispatchCase).map addedStatement ++ ss) placed) :
    ∃ rest, placed = names.flatMap (placedCase offsetOf) ++ rest ∧
      List.Forall₂ (Statement.Resolves labels) ss rest := by
  induction names generalizing placed with
  | nil => exact ⟨placed, rfl, h⟩
  | cons name names ih =>
    rw [List.flatMap_cons, List.map_append, List.append_assoc] at h
    obtain ⟨load, _, hload, h₁, rfl⟩ := List.forall₂_cons_left_iff.mp h
    obtain ⟨equal, _, hequal, h₂, rfl⟩ := List.forall₂_cons_left_iff.mp h₁
    obtain ⟨jmpIf, _, hjmpIf, h₃, rfl⟩ := List.forall₂_cons_left_iff.mp h₂
    have hname := hoffset name List.mem_cons_self
    obtain ⟨rest, rfl, hforall⟩ := ih (fun n hn => hoffset n (List.mem_cons_of_mem name hn)) h₃
    cases hload
    cases hequal
    refine ⟨rest, ?_, hforall⟩
    unfold Statement.Resolves at hjmpIf
    simp only [addedStatement, Instr.mapAddress, Operands.mapAddress, OperandKind.mapAddress,
      hname, bind, Except.bind] at hjmpIf
    cases hjmpIf
    rfl

theorem statementsOf_withDispatcher_cons {own : List Item} (hne : publicOf own ≠ []) :
    statementsOf (withDispatcher own) =
      addedStatement ⟨.pop, (31, ())⟩ ::
        (((publicOf own).flatMap dispatchCase).map addedStatement ++
          addedStatement ⟨.ret, ()⟩ :: statementsOf own) := by
  have hnames : (publicOf own).isEmpty = false := List.isEmpty_eq_false_iff.mpr hne
  rw [statementsOf_withDispatcher]
  unfold dispatch
  rw [hnames, if_neg Bool.false_ne_true]
  simp

/-- The dispatcher is placed in front of all other instructions. -/
theorem dispatcher_placed {own : List Item} {placed : List (Instr UInt32)}
    {script : Script} {offsetOf : String → UInt32}
    (h : LaidOut (withDispatcher own) placed script) (hne : publicOf own ≠ [])
    (hoffset : ∀ name ∈ publicOf own, script.methodOffset? name = some (offsetOf name)) :
    ∃ rest, placed = placedDispatch offsetOf (publicOf own) ++ rest := by
  have hresolve : ∀ name ∈ publicOf own,
      Address.resolve (labelOffsets (withDispatcher own) placed) (.label name) =
        .ok (offsetOf name) := by
    intro name hname
    have hmethod := hoffset name hname
    obtain ⟨l, k, hl, hpublic, rfl⟩ := exists_of_mem_publicOf hname
    have hl' := mem_definitions_append ((dispatch (publicOf own)).map added) hl
    rw [h.methodOffset?_eq hl' hpublic] at hmethod
    rw [h.resolve_label hl', Option.some.inj hmethod]
  have hplaced := h.resolved
  rw [statementsOf_withDispatcher_cons hne] at hplaced
  obtain ⟨pop, back, hpop, hcases, heq⟩ := List.forall₂_cons_left_iff.mp hplaced
  obtain ⟨rest, rfl, hrest⟩ := placed_dispatchCases hresolve hcases
  obtain ⟨ret, tail, hret, -, rfl⟩ := List.forall₂_cons_left_iff.mp hrest
  cases hpop
  cases hret
  refine ⟨tail, ?_⟩
  rw [heq]
  unfold placedDispatch
  rw [List.append_assoc, List.append_assoc]
  rfl

/-! ## Section 2: One comparison -/

/-- Nothing but the text itself equals a text. -/
theorem Heap.equal_string {Ω : Type} [HostData Ω] (h : Heap Ω) (v : Value) (name : String)
    (instruction : String) :
    h.equal v (.string name) instruction = .ok (decide (v = .string name)) := by
  unfold equal compareWithin
  cases v with
  | string s =>
    by_cases hs : s = name
    · simp [hs]
    · simp [hs]
  | none => simp
  | bool b => simp
  | number n => simp
  | bytes bs => simp
  | timestamp t => simp
  | struct r => simp
  | enum e => simp
  | object r => simp

namespace Machine

variable {Ω : Type} {env : Env Ω}

/-- A frame that runs a dispatcher at the offset `ip`: it has taken the selector `v` from
    the stack of `start` and left `s` there; besides the selector, only the registers 29
    and 30 are in use. -/
structure Dispatching (env : Env Ω) (start : Machine Ω) (s : Array Value) (v : Value) (ip : Nat)
    (m : Machine Ω) : Prop where
  running : m.status = .running
  context : m.frame.context = start.frame.context
  ip_eq : m.frame.ip = ip
  callers : m.callers = start.callers
  stack : m.stack = s
  heap : m.heap = start.heap
  size : m.frame.registers.size = env.config.registers
  selector : m.frame.registers[31]? = some v
  others : ∀ k < env.config.registers, k ≠ 29 → k ≠ 30 → k ≠ 31 →
    m.frame.registers[k]? = some .none

namespace Dispatching

variable {start m : Machine Ω} {s : Array Value} {v : Value} {ip : Nat}

/-- Fetching an instruction only moves the frame behind it. -/
theorem fetched (h : Dispatching env start s v ip m) (op : Opcode) (next : Nat) :
    Dispatching env start s v next (m.fetched env op next) :=
  { h with ip_eq := rfl }

/-- Writing one of the two other registers keeps a dispatcher going. -/
theorem setRegister (h : Dispatching env start s v ip m) {index : UInt8}
    (hindex : index = 29 ∨ index = 30) (w : Value) :
    Dispatching env start s v ip (m.setRegister index w) where
  running := h.running
  context := h.context
  ip_eq := h.ip_eq
  callers := h.callers
  stack := h.stack
  heap := h.heap
  size := (m.setRegister_size index w).trans h.size
  selector := by
    rw [m.setRegister_of_ne w (by rcases hindex with rfl | rfl <;> decide), h.selector]
  others := by
    intro k hk h29 h30 h31
    rw [m.setRegister_of_ne w (by rcases hindex with rfl | rfl <;> assumption),
      h.others k hk h29 h30 h31]

theorem lt_size (h : Dispatching env start s v ip m)
    (hreg : dispatcherRegisters ≤ env.config.registers) {k : Nat} (hk : k < dispatcherRegisters) :
    k < m.frame.registers.size := by
  rw [h.size]
  exact Nat.lt_of_lt_of_le hk hreg

/-- All registers of a dispatcher that has found its method. -/
theorem registers_eq {name : String}
    (h : Dispatching env start s (.string name) ip m)
    (hcond : m.frame.registers[29]? = some (.bool true))
    (hname : m.frame.registers[30]? = some (.string name)) (k : Nat)
    (hk : k < env.config.registers) :
    m.frame.registers[k]? =
      some (if k = 29 then .bool true else if k = 30 ∨ k = 31 then .string name else .none) := by
  by_cases h29 : k = 29
  · rw [if_pos h29, h29, hcond]
  · rw [if_neg h29]
    by_cases h30 : k = 30
    · rw [if_pos (.inl h30), h30, hname]
    · by_cases h31 : k = 31
      · rw [if_pos (.inr h31), h31, h.selector]
      · rw [if_neg (by omega), h.others k hk h29 h30 h31]

variable [HostData Ω] {front back : List (Instr UInt32)} {name : String}

/-- At an instruction of the code, a dispatcher executes it. -/
theorem step_eq (h : Dispatching env start s v (placedLength front) m)
    (hsize : start.frame.context.code.size < UInt32.size) (i : Instr UInt32)
    (hcode : start.frame.context.code.toList = (front ++ i :: back).flatMap Instr.encode) :
    m.step env = (m.fetched env i.op (placedLength (front ++ [i]))).exec env i := by
  apply m.step_of_placed env front i back
  · rw [h.context, hcode]
  · rw [h.context]
    exact hsize
  · exact h.ip_eq

/-- The name is loaded into register 30. -/
theorem step_load (h : Dispatching env start s v (placedLength front) m)
    (hreg : dispatcherRegisters ≤ env.config.registers)
    (hsize : start.frame.context.code.size < UInt32.size)
    (hcode : start.frame.context.code.toList =
      (front ++ ⟨.load, (30, .string name, ())⟩ :: back).flatMap Instr.encode) :
    ∃ m', m.step env = (.ok (), m') ∧
      Dispatching env start s v (placedLength (front ++ [⟨.load, (30, .string name, ())⟩])) m' ∧
      m'.frame.registers[30]? = some (.string name) := by
  have hf := h.fetched .load (placedLength (front ++ [⟨.load, (30, .string name, ())⟩]))
  have h30 := hf.lt_size hreg (k := (30 : UInt8).toNat) (by decide)
  refine ⟨_, ?_, hf.setRegister (.inr rfl) (.string name), setRegister_self _ _ h30⟩
  rw [h.step_eq hsize _ hcode]
  exact assign_of_lt _ _ h30

/-- The selector in register 31 is compared with the name. -/
theorem step_equal (h : Dispatching env start s v (placedLength front) m)
    (hreg : dispatcherRegisters ≤ env.config.registers)
    (hsize : start.frame.context.code.size < UInt32.size)
    (hcode : start.frame.context.code.toList =
      (front ++ ⟨.equal, (31, 30, 29, ())⟩ :: back).flatMap Instr.encode)
    (hname : m.frame.registers[30]? = some (.string name)) :
    ∃ m', m.step env = (.ok (), m') ∧
      Dispatching env start s v (placedLength (front ++ [⟨.equal, (31, 30, 29, ())⟩])) m' ∧
      m'.frame.registers[29]? = some (.bool (decide (v = .string name))) ∧
      m'.frame.registers[30]? = some (.string name) := by
  have hf := h.fetched .equal (placedLength (front ++ [⟨.equal, (31, 30, 29, ())⟩]))
  have h29 := hf.lt_size hreg (k := (29 : UInt8).toNat) (by decide)
  have hselector : m.register 31 = .ok v := m.register_eq_ok.mpr h.selector
  have hother : m.register 30 = .ok (.string name) := m.register_eq_ok.mpr hname
  refine ⟨_, ?_, hf.setRegister (.inl rfl) (.bool (decide (v = .string name))),
    setRegister_self _ _ h29, ?_⟩
  · rw [h.step_eq hsize _ hcode]
    unfold exec
    simp only [fetched_register, hselector, hother, Heap.equal_string, bind, Except.bind]
    exact assign_of_lt _ _ h29
  · rw [setRegister_of_ne _ _ (by decide)]
    exact hname

/-- The comparison decides whether the frame goes to the method or on. -/
theorem step_jmpIf (h : Dispatching env start s v (placedLength front) m)
    (hsize : start.frame.context.code.size < UInt32.size) {target : UInt32} {b : Bool}
    (htarget : target.toNat ≤ start.frame.context.code.size)
    (hcode : start.frame.context.code.toList =
      (front ++ ⟨.jmpIf, (29, target, ())⟩ :: back).flatMap Instr.encode)
    (hcond : m.frame.registers[29]? = some (.bool b)) :
    ∃ m', m.step env = (.ok (), m') ∧
      Dispatching env start s v
        (if b then target.toNat else placedLength (front ++ [⟨.jmpIf, (29, target, ())⟩])) m' ∧
      m'.frame.registers = m.frame.registers := by
  have hf := h.fetched .jmpIf (placedLength (front ++ [⟨.jmpIf, (29, target, ())⟩]))
  have hbool : m.register 29 = .ok (.bool b) := m.register_eq_ok.mpr hcond
  rw [h.step_eq hsize _ hcode]
  unfold exec
  simp only [branch, boolIn, fetched_register, hbool, bind, Except.bind, Value.strictBool]
  cases b with
  | false => exact ⟨_, rfl, hf, rfl⟩
  | true =>
    rw [← hf.context] at htarget
    exact ⟨_, jump_of_le _ htarget, { hf with ip_eq := rfl }, rfl⟩

/-- A comparison stores the name and the result, and jumps if the selector is the
    name. -/
theorem compare (h : Dispatching env start s v (placedLength front) m)
    (hreg : dispatcherRegisters ≤ env.config.registers)
    (hsize : start.frame.context.code.size < UInt32.size) {offsetOf : String → UInt32}
    (hoffset : (offsetOf name).toNat ≤ start.frame.context.code.size)
    (hcode : start.frame.context.code.toList =
      (front ++ placedCase offsetOf name ++ back).flatMap Instr.encode) :
    ∃ m', Reaches env m m' ∧
      Dispatching env start s v
        (if v = .string name then (offsetOf name).toNat
          else placedLength (front ++ placedCase offsetOf name)) m' ∧
      m'.frame.registers[29]? = some (.bool (decide (v = .string name))) ∧
      m'.frame.registers[30]? = some (.string name) := by
  let load : Instr UInt32 := ⟨.load, (30, .string name, ())⟩
  let equal : Instr UInt32 := ⟨.equal, (31, 30, 29, ())⟩
  let jmpIf : Instr UInt32 := ⟨.jmpIf, (29, offsetOf name, ())⟩
  have hsplit : front ++ placedCase offsetOf name ++ back =
      front ++ load :: equal :: jmpIf :: back := by
    rw [List.append_assoc]
    rfl
  rw [hsplit] at hcode
  obtain ⟨m₁, hstep₁, h₁, hname₁⟩ := h.step_load hreg hsize hcode
  have hcode₁ : start.frame.context.code.toList =
      (front ++ [load] ++ equal :: jmpIf :: back).flatMap Instr.encode := by
    rw [hcode, List.append_assoc]
    rfl
  obtain ⟨m₂, hstep₂, h₂, hcond₂, hname₂⟩ := h₁.step_equal hreg hsize hcode₁ hname₁
  have hcode₂ : start.frame.context.code.toList =
      (front ++ [load] ++ [equal] ++ jmpIf :: back).flatMap Instr.encode := by
    rw [hcode₁, List.append_assoc (front ++ [load])]
    rfl
  obtain ⟨m₃, hstep₃, h₃, hregs₃⟩ := h₂.step_jmpIf hsize hoffset hcode₂ hcond₂
  refine ⟨m₃, ?_, ?_, ?_, ?_⟩
  · exact ((Reaches.single h.running hstep₁).tail h₁.running hstep₂).tail h₂.running hstep₃
  · have hfront : front ++ [load] ++ [equal] ++ [jmpIf] = front ++ placedCase offsetOf name := by
      rw [List.append_assoc, List.append_assoc]
      rfl
    rw [← hfront]
    simpa only [decide_eq_true_eq] using h₃
  · rw [hregs₃, hcond₂]
  · rw [hregs₃, hname₂]

/-! ## Section 3: All comparisons -/

/-- The comparisons with several names, one after another: they end at the method of the
    selector if it is among the names, and behind the last comparison otherwise. -/
theorem search (names : List String) (h : Dispatching env start s v (placedLength front) m)
    (hreg : dispatcherRegisters ≤ env.config.registers)
    (hsize : start.frame.context.code.size < UInt32.size) {offsetOf : String → UInt32}
    (hoffset : ∀ n ∈ names, (offsetOf n).toNat ≤ start.frame.context.code.size)
    (hcode : start.frame.context.code.toList =
      (front ++ names.flatMap (placedCase offsetOf) ++ back).flatMap Instr.encode) :
    (∃ n ∈ names, v = .string n ∧ ∃ m', Reaches env m m' ∧
      Dispatching env start s v (offsetOf n).toNat m' ∧
      m'.frame.registers[29]? = some (.bool true) ∧
      m'.frame.registers[30]? = some (.string n)) ∨
    ((∀ n ∈ names, v ≠ .string n) ∧ ∃ m', Reaches env m m' ∧
      Dispatching env start s v
        (placedLength (front ++ names.flatMap (placedCase offsetOf))) m') := by
  induction names generalizing front m with
  | nil =>
    refine .inr ⟨fun n hn => absurd hn List.not_mem_nil, m, .refl, ?_⟩
    rwa [List.flatMap_nil, List.append_nil]
  | cons name names ih =>
    -- a comparison that fails becomes part of the code in front
    have hcode' : start.frame.context.code.toList =
        (front ++ placedCase offsetOf name ++
          (names.flatMap (placedCase offsetOf) ++ back)).flatMap Instr.encode := by
      rw [hcode, List.flatMap_cons]
      simp only [List.append_assoc]
    obtain ⟨m₁, hreach₁, h₁, hcond, hname⟩ :=
      h.compare hreg hsize (hoffset name List.mem_cons_self) hcode'
    by_cases hv : v = .string name
    · rw [if_pos hv] at h₁
      rw [decide_eq_true hv] at hcond
      exact .inl ⟨name, List.mem_cons_self, hv, m₁, hreach₁, h₁, hcond, hname⟩
    · rw [if_neg hv] at h₁
      have hrest := ih h₁ (fun n hn => hoffset n (List.mem_cons_of_mem name hn))
        (by rw [hcode']; simp only [List.append_assoc])
      rcases hrest with ⟨n, hn, heq, m₂, hreach₂, h₂, hregs⟩ | ⟨hnone, m₂, hreach₂, h₂⟩
      · exact .inl ⟨n, List.mem_cons_of_mem name hn, heq, m₂, hreach₁.trans hreach₂, h₂, hregs⟩
      · refine .inr ⟨?_, m₂, hreach₁.trans hreach₂, ?_⟩
        · intro n hn
          rcases List.mem_cons.mp hn with rfl | hn
          · exact hv
          · exact hnone n hn
        · rwa [List.flatMap_cons, ← List.append_assoc]

end Dispatching

/-! ## Section 4: The first and the last instruction -/

variable [HostData Ω] {m : Machine Ω} {c : Context} {back : List (Instr UInt32)}

/-- The machine at the first instruction of a dispatcher. -/
theorem step_first (hframe : m.frame = Frame.fresh env.config c 0)
    (hsize : c.code.size < UInt32.size)
    (hcode : c.code.toList = (⟨.pop, (31, ())⟩ :: back).flatMap Instr.encode) :
    m.step env =
      (m.fetched env .pop (placedLength [⟨.pop, (31, ())⟩])).popRegister "POP" 31 := by
  have hcontext : m.frame.context = c := by
    rw [hframe]
    rfl
  rw [m.step_of_placed env [] ⟨.pop, (31, ())⟩ back
    (by rw [hcontext, hcode]; rfl) (by rw [hcontext]; exact hsize) (by rw [hframe]; rfl)]
  rfl

/-- The selector is popped into register 31. -/
theorem step_pop {s : Array Value} {v : Value} (hrun : m.status = .running)
    (hframe : m.frame = Frame.fresh env.config c 0) (hstack : m.stack = s.push v)
    (hreg : dispatcherRegisters ≤ env.config.registers) (hsize : c.code.size < UInt32.size)
    (hcode : c.code.toList = (⟨.pop, (31, ())⟩ :: back).flatMap Instr.encode) :
    ∃ m', m.step env = (.ok (), m') ∧
      Dispatching env m s v (placedLength [⟨.pop, (31, ())⟩]) m' := by
  unfold dispatcherRegisters at hreg
  have hlen : m.frame.registers.size = env.config.registers := by
    rw [hframe]
    exact Array.size_replicate
  have hempty : ∀ k, k < env.config.registers → m.frame.registers[k]? = some .none := by
    intro k hk
    rw [hframe]
    exact Frame.fresh_register c 0 hk
  have h31 : m.register 31 = .ok .none :=
    m.register_eq_ok.mpr (hempty 31 (Nat.lt_of_lt_of_le (by decide) hreg))
  have hback : (m.fetched env .pop (placedLength [⟨.pop, (31, ())⟩])).stack.back? = some v := by
    rw [fetched_stack, hstack, Array.back?_push]
  rw [step_first hframe hsize hcode]
  unfold popRegister pop
  rw [fetched_register, h31]
  simp only [hback]
  refine ⟨_, rfl, hrun, rfl, rfl, rfl, ?_, rfl, (setRegister_size _ _ _).trans hlen, ?_, ?_⟩
  · show (m.stack.pop) = s
    rw [hstack, Array.pop_push]
  · apply setRegister_self
    show 31 < m.frame.registers.size
    omega
  · intro k hk _ _ h31
    rw [setRegister_of_ne _ _ (by exact h31)]
    exact hempty k hk

/-- Without a selector there is nothing to pop. -/
theorem step_pop_empty (hframe : m.frame = Frame.fresh env.config c 0) (hstack : m.stack = #[])
    (hreg : dispatcherRegisters ≤ env.config.registers) (hsize : c.code.size < UInt32.size)
    (hcode : c.code.toList = (⟨.pop, (31, ())⟩ :: back).flatMap Instr.encode) :
    ∃ m', m.step env = (.error (.stackUnderflow "POP"), m') := by
  have h31 : m.register 31 = .ok .none := by
    rw [m.register_eq_ok, hframe]
    exact Frame.fresh_register c 0 (Nat.lt_of_lt_of_le (by decide) hreg)
  have hback : (m.fetched env .pop (placedLength [⟨.pop, (31, ())⟩])).stack.back? = none := by
    rw [fetched_stack, hstack]
    rfl
  rw [step_first hframe hsize hcode]
  unfold popRegister pop
  rw [fetched_register, h31]
  simp only [hback]
  exact ⟨_, rfl⟩

/-- A fresh frame at the start of a dispatcher reaches the method that the selector names,
    or returns if it names none. -/
theorem dispatch_found_or_left {s : Array Value} {v : Value} {names : List String}
    {offsetOf : String → UInt32} (hrun : m.status = .running)
    (hframe : m.frame = Frame.fresh env.config c 0) (hstack : m.stack = s.push v)
    (hreg : dispatcherRegisters ≤ env.config.registers) (hsize : c.code.size < UInt32.size)
    (hoffset : ∀ n ∈ names, (offsetOf n).toNat ≤ c.code.size)
    (hcode : c.code.toList = (placedDispatch offsetOf names ++ back).flatMap Instr.encode) :
    (∃ n ∈ names, v = .string n ∧ ∃ m', Reaches env m m' ∧
      Dispatching env m s v (offsetOf n).toNat m' ∧
      m'.frame.registers[29]? = some (.bool true) ∧
      m'.frame.registers[30]? = some (.string n)) ∨
    ((∀ n ∈ names, v ≠ .string n) ∧ ∃ m', Reaches env m m' ∧ HasLeft m m' ∧
      m'.stack = s ∧ m'.heap = m.heap) := by
  have hcontext : m.frame.context = c := by
    rw [hframe]
    rfl
  have hsplit : placedDispatch offsetOf names ++ back =
      [⟨.pop, (31, ())⟩] ++ names.flatMap (placedCase offsetOf) ++ (⟨.ret, ()⟩ :: back) := by
    unfold placedDispatch
    rw [List.append_assoc]
    rfl
  rw [hsplit] at hcode
  obtain ⟨m₁, hstep₁, h₁⟩ := step_pop hrun hframe hstack hreg hsize hcode
  have hreach₁ : Reaches env m m₁ := Reaches.single hrun hstep₁
  -- the comparisons speak of the context of the frame
  rw [← hcontext] at hcode hsize hoffset
  rcases h₁.search names hreg hsize hoffset hcode with
    ⟨n, hn, hv, m₂, hreach₂, h₂, hregs⟩ | ⟨hnone, m₂, hreach₂, h₂⟩
  · exact .inl ⟨n, hn, hv, m₂, hreach₁.trans hreach₂, h₂, hregs⟩
  · -- behind the last comparison stands `RET`
    have hstep := h₂.step_eq hsize ⟨.ret, ()⟩ hcode
    refine .inr ⟨hnone, _, (hreach₁.trans hreach₂).tail h₂.running hstep, ?_, ?_, ?_⟩
    · have hleft := hasLeft_leave
        (m₂.fetched env .ret (placedLength ([⟨.pop, (31, ())⟩] ++
          names.flatMap (placedCase offsetOf) ++ [⟨.ret, ()⟩])))
      unfold HasLeft at hleft ⊢
      rw [fetched_callers, h₂.callers, fetched_status, h₂.running, ← hrun] at hleft
      exact hleft
    · rw [leave_stack, fetched_stack, h₂.stack]
    · rw [leave_heap, fetched_heap, h₂.heap]

end Machine

/-! ## Section 5: Selectors lead to methods -/

namespace Machine

variable {Ω : Type} {env : Env Ω} {m : Machine Ω}

/-- A run of the entry script may begin at any offset in its code. -/
theorem checkStart_start (hreg : dispatcherRegisters ≤ env.config.registers)
    {ip : Nat} (hip : ip ≤ env.entry.code.size) : (m.start env ip).checkStart env = .ok () := by
  rw [checkStart_start_eq m hip, checkContext_of_le _ hreg]

/-- `SWITCH` to a context starts a fresh frame at its offset 0. -/
theorem switchContext_eq_ok {instruction : String} {handle : UInt8} {v : Value} {c : Context}
    (hreg : dispatcherRegisters ≤ env.config.registers) (hv : m.register handle = .ok v)
    (hc : m.heap.asContext v instruction = .ok c) (hdepth : m.depth < env.config.callDepth) :
    ∃ m', m.switchContext env.config instruction handle = (.ok (), m') ∧ m'.status = m.status ∧
      m'.frame = Frame.fresh env.config c 0 ∧ m'.callers = m.frame :: m.callers ∧
      m'.stack = m.stack := by
  unfold switchContext
  rw [hv]
  simp only [bind, Except.bind, hc, checkContext_of_le c hreg]
  exact ⟨_, enter_of_lt _ hdepth, rfl, rfl, rfl, rfl⟩

end Machine

/-- **The dispatcher routes.** Take any source with public labels, and a machine whose
    frames have the registers of a dispatcher.  A fresh frame at offset 0 of its script
    takes the selector from the evaluation stack.  If it is the name of a public label,
    the frame reaches the offset of that method, with the selector in the registers 30
    and 31, true in register 29, and nothing in all others.  Any other value makes it
    return without a fault; an empty stack is a fault.  Runs of the entry script from
    offset 0 and `SWITCH` start such frames, and a run of a public method by name starts
    at the same offset. -/
theorem dispatcher_routes {Ω : Type} [HostData Ω] {source : String} {script : Script}
    {names : List String} (h : assemble source = .ok script)
    (hnames : publicNames (numbered 1 (Text.lines source)) = .ok names) (hne : names ≠ [])
    (env : Env Ω) (hreg : 32 ≤ env.config.registers) :
    (∀ (m : Machine Ω) (c : Context), c.script = script → m.status = .running →
      m.frame = Frame.fresh env.config c 0 →
      (∀ s p, m.stack = s.push (.string p) → p ∈ names →
        ∃ offset m', script.methodOffset? p = some offset ∧ Machine.Reaches env m m' ∧
          m'.status = .running ∧ m'.frame.context = c ∧ m'.frame.ip = offset.toNat ∧
          m'.stack = s ∧ m'.callers = m.callers ∧ m'.heap = m.heap ∧
          m'.frame.registers.size = env.config.registers ∧
          ∀ k < env.config.registers, m'.frame.registers[k]? =
            some (if k = 29 then .bool true else if k = 30 ∨ k = 31 then .string p else .none)) ∧
      (∀ s v, m.stack = s.push v → (∀ p ∈ names, v ≠ .string p) →
        ∃ m', Machine.Reaches env m m' ∧ Machine.HasLeft m m' ∧ m'.stack = s ∧
          m'.heap = m.heap) ∧
      (m.stack = #[] → ∃ m', m.step env = (.error (.stackUnderflow "POP"), m'))) ∧
    (∀ m : Machine Ω, env.entry.script = script → m.status ≠ .running →
      ∃ m', m.requestRun env none = (.ok (), m') ∧ m'.checkStart env = .ok () ∧
        m'.status = .running ∧ m'.frame = Frame.fresh env.config env.entry 0 ∧
        m'.callers = [] ∧ m'.stack = m.stack) ∧
    (∀ (m : Machine Ω) (handle : UInt8) (v : Value) (c : Context), m.register handle = .ok v →
      m.heap.asContext v "SWITCH" = .ok c → c.script = script → m.depth < env.config.callDepth →
      ∃ m', m.exec env ⟨.switch, (handle, ())⟩ = (.ok (), m') ∧ m'.status = m.status ∧
        m'.frame = Frame.fresh env.config c 0 ∧ m'.callers = m.frame :: m.callers ∧
        m'.stack = m.stack) ∧
    (∀ (m : Machine Ω) (p : String), env.entry.script = script → m.status ≠ .running → p ∈ names →
      ∃ offset m', script.methodOffset? p = some offset ∧
        m.requestRun env (some p) = (.ok (), m') ∧ m'.status = .running ∧
        m'.frame = Frame.fresh env.config env.entry offset.toNat) := by
  obtain ⟨own, placed, hown, hlaid⟩ := assemble_laidOut h
  cases hnames.symm.trans (publicNames_of_items hown)
  -- where the methods are
  let offsetOf : String → UInt32 := fun n => (script.methodOffset? n).getD 0
  have hoffset : ∀ n ∈ publicOf own, script.methodOffset? n = some (offsetOf n) ∧
      (offsetOf n).toNat ≤ script.code.size := by
    intro n hn
    obtain ⟨l, k, hl, hpublic, rfl⟩ := exists_of_mem_publicOf hn
    have hmethod := hlaid.methodOffset?_eq
      (mem_definitions_append ((dispatch (publicOf own)).map added) hl) hpublic
    simp only [offsetOf, hmethod, Option.getD_some, true_and, hlaid.toNat_ofNat_startOf]
    exact hlaid.startOf_le_size _
  obtain ⟨rest, rfl⟩ := dispatcher_placed hlaid hne fun n hn => (hoffset n hn).1
  refine ⟨?_, ?_, ?_, ?_⟩
  · rintro m c rfl hrun hframe
    have hbound : ∀ n ∈ publicOf own, (offsetOf n).toNat ≤ c.code.size := fun n hn =>
      (hoffset n hn).2
    refine ⟨?_, ?_, ?_⟩
    · intro s p hstack hp
      rcases Machine.dispatch_found_or_left hrun hframe hstack hreg hlaid.size_lt hbound hlaid.code
        with ⟨n, -, hv, m', hreach, hd, hcond, hname⟩ | ⟨hnone, -⟩
      · cases hv
        have hcontext : m'.frame.context = c := by
          rw [hd.context, hframe]
          rfl
        exact ⟨_, m', (hoffset p hp).1, hreach, hd.running, hcontext, hd.ip_eq, hd.stack,
          hd.callers, hd.heap, hd.size, hd.registers_eq hcond hname⟩
      · exact absurd rfl (hnone p hp)
    · intro s v hstack hv
      rcases Machine.dispatch_found_or_left hrun hframe hstack hreg hlaid.size_lt hbound hlaid.code
        with ⟨n, hn, heq, -⟩ | ⟨-, m', hreach, hleft, hs, hheap⟩
      · exact absurd heq (hv n hn)
      · exact ⟨m', hreach, hleft, hs, hheap⟩
    · intro hstack
      exact Machine.step_pop_empty hframe hstack hreg hlaid.size_lt hlaid.code
  · intro m _ hidle
    refine ⟨m.start env 0, ?_, Machine.checkStart_start hreg (Nat.zero_le _), rfl, rfl, rfl, rfl⟩
    unfold Machine.requestRun
    rw [if_neg hidle]
  · intro m handle v c hv hc _ hdepth
    exact Machine.switchContext_eq_ok hreg hv hc hdepth
  · rintro m p hentry hidle hp
    refine ⟨_, m.start env (offsetOf p).toNat, (hoffset p hp).1, ?_, rfl, rfl⟩
    unfold Machine.requestRun
    simp only [if_neg hidle, hentry, (hoffset p hp).1]

/-- A run of a script with one public label, started with its name on the stack. -/
theorem main_is_dispatched :
    let source := "pub main:\nRET"
    ∃ script, assemble source = .ok script ∧
      publicNames (numbered 1 (Text.lines source)) = .ok ["main"] ∧
      let c : Context := ⟨0, "main", script⟩
      let env : Env Empty := ⟨{}, c, .empty, .empty⟩
      let m : Machine Empty :=
        { (Machine.initial env.config c .empty).start env 0 with
          stack := #[.bool true, .string "main"] }
      32 ≤ env.config.registers ∧ ∃ m', Machine.Reaches env m m' ∧ m'.frame.ip = 28 ∧
        m'.stack = #[.bool true] ∧ m'.frame.registers[29]? = some (.bool true) := by
  intro source
  have hrun : (assemble source).toOption.map (fun s => s.methodOffset? "main") =
      some (some 28) := by
    decide +kernel
  have hnames : publicNames (numbered 1 (Text.lines source)) = .ok ["main"] := by decide +kernel
  cases h : assemble source with
  | error e =>
    rw [h] at hrun
    cases hrun
  | ok script =>
    rw [h] at hrun
    have hmain : script.methodOffset? "main" = some 28 := Option.some.inj hrun
    refine ⟨script, rfl, hnames, ?_⟩
    intro c env m
    have hreg : 32 ≤ env.config.registers := Nat.le_refl 32
    have hroutes := (dispatcher_routes h hnames (by decide) env hreg).1 m c rfl rfl rfl
    obtain ⟨offset, m', hoffset, hreach, -, -, hip, hstack, -, -, -, hregs⟩ :=
      hroutes.1 #[.bool true] "main" rfl (by decide)
    cases hmain.symm.trans hoffset
    exact ⟨hreg, m', hreach, hip, hstack, hregs 29 (Nat.lt_of_lt_of_le (by decide) hreg)⟩

end ContractVM
