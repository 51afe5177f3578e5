import ContractVM.Proofs.Assembly.Dispatcher
import ContractVM.Proofs.Assembly.Literals

/-! # Register operands

    A register is the letter `r` and a decimal number below 256.  Two readers recognize it: one for
    operands that have to be registers, and one for the target of `EXTCALL`, where all else is the
    name of a host function.

    * **Spelling**: the two readers take the same tokens for the same registers, but for a liberty
      that only the first one grants, a plus sign in front of the number.
    * **Instructions**: whatever the mnemonic is, an operand is a register if and only if one of the
      two readers takes its token for that register. -/

namespace ContractVM

/-- The operands that are registers, each at its place. -/
def Operands.registers {A : Type} :
    (kinds : List OperandKind) → Operands A kinds → List (Option UInt8)
  | [], () => []
  | .register :: kinds, (r, rest) => some r :: registers kinds rest
  | .target :: kinds, (.register r, rest) => some r :: registers kinds rest
  | _ :: kinds, (_, rest) => none :: registers kinds rest

theorem Operands.registers_succ {A : Type} {kind : OperandKind} {kinds : List OperandKind}
    {a : kind.Carrier A} {rest : Operands A kinds} {k : Nat} :
    (Operands.registers (kind :: kinds) (a, rest))[k + 1]? =
      (Operands.registers kinds rest)[k]? := by
  cases kind with
  | target => cases a <;> rfl
  | register | address | literal | type => rfl

namespace Assembly

open Text

/-! ## Section 1: Spelling -/

/-- The characters that spell a register.  Where liberties are taken, a plus sign may precede its
    number. -/
inductive SpellsRegister (liberal : Bool) : List Char → UInt8 → Prop where
  | digits {cs : List Char} (hdigits : IsDecimal cs) (hbound : decimalValue cs < 256) :
    SpellsRegister liberal ('r' :: cs) (UInt8.ofNat (decimalValue cs))
  | plus {cs : List Char} (hliberal : liberal = true) (hdigits : IsDecimal cs)
    (hbound : decimalValue cs < 256) :
    SpellsRegister liberal ('r' :: '+' :: cs) (UInt8.ofNat (decimalValue cs))

variable {token : String} {n : UInt8}

/-- Digits in front of which no sign stands. -/
theorem IsDecimal.not_plus {cs : List Char} (h : IsDecimal cs) : ('r' :: cs)[1]? ≠ some '+' := by
  cases cs with
  | nil => simp
  | cons c cs =>
    intro hc
    exact h.head.1 (Option.some.inj hc)

/-- A register is documented if and only if it is spelled without a plus sign. -/
theorem SpellsRegister.documented_iff {cs : List Char} :
    SpellsRegister false cs n ↔ SpellsRegister true cs n ∧ cs[1]? ≠ some '+' := by
  constructor
  · intro h
    cases h with
    | digits hdigits hbound => exact ⟨.digits hdigits hbound, hdigits.not_plus⟩
    | plus hliberal => simp at hliberal
  · rintro ⟨h, hplus⟩
    cases h with
    | digits hdigits hbound => exact .digits hdigits hbound
    | plus => exact absurd rfl hplus

/-- A register operand is read as it is spelled, with the liberty. -/
theorem parseRegister_eq_ok_iff :
    parseRegister token = .ok n ↔ SpellsRegister true token.toList n := by
  unfold parseRegister
  constructor
  · intro h
    split at h
    · next cs heq =>
      rw [heq]
      split at h
      · next k hread =>
        obtain ⟨digits, hsign, hdecimal, hvalue, hbound⟩ := parseBounded?_eq_some_iff.mp hread
        cases h
        subst hvalue
        rcases hsign with rfl | rfl
        · exact .digits hdecimal hbound
        · exact .plus rfl hdecimal hbound
      · simp at h
    · simp at h
  · intro h
    generalize token.toList = cs at h
    cases h with
    | digits hdecimal hbound =>
      have hnumber := parseBounded?_eq_some_iff.mpr ⟨_, .inl rfl, hdecimal, rfl, hbound⟩
      simp only [hnumber]
    | plus _ hdecimal hbound =>
      have hnumber := parseBounded?_eq_some_iff.mpr ⟨_, .inr rfl, hdecimal, rfl, hbound⟩
      simp only [hnumber]

/-- What is no register is refused, with the token. -/
theorem parseRegister_eq_error (h : ∀ n, ¬SpellsRegister true token.toList n) :
    parseRegister token = .error (if token.toList.head? = some 'r' then .invalidRegister token
      else .expectedRegister token) := by
  cases hread : parseRegister token with
  | ok n => exact absurd (parseRegister_eq_ok_iff.mp hread) (h n)
  | error c =>
    unfold parseRegister at hread
    split at hread
    · next cs heq =>
      rw [heq, List.head?_cons, if_pos rfl]
      split at hread
      · simp at hread
      · exact hread.symm
    · next hother =>
      rw [if_neg, hread]
      intro hhead
      obtain ⟨cs, heq⟩ := List.head?_eq_some_iff.mp hhead
      exact hother cs heq

/-! ## Section 2: Targets -/

theorem isRegisterToken_iff :
    isRegisterToken token = true ↔ ∃ cs, token.toList = 'r' :: cs ∧ IsDecimal cs := by
  unfold isRegisterToken IsDecimal
  constructor
  · intro h
    split at h
    · next cs heq =>
      obtain ⟨hne, hall⟩ := Bool.and_eq_true_iff.mp h
      refine ⟨cs, heq, ?_, List.all_eq_true.mp hall⟩
      rintro rfl
      simp at hne
    · simp at h
  · rintro ⟨cs, heq, hne, hall⟩
    rw [heq]
    show (!cs.isEmpty && cs.all Char.isDigit) = true
    rw [List.isEmpty_eq_false_iff.mpr hne, List.all_eq_true.mpr hall]
    rfl

/-- The target reader takes no liberty: it reads registers that its own scan has found to consist
    of digits. -/
theorem parseTarget_eq_register_iff :
    parseTarget token = .ok (.register n) ↔ SpellsRegister false token.toList n := by
  rw [SpellsRegister.documented_iff]
  unfold parseTarget
  by_cases hscan : isRegisterToken token = true
  · rw [if_pos hscan, Except.map_eq_ok]
    obtain ⟨cs, heq, hdecimal⟩ := isRegisterToken_iff.mp hscan
    have hplus : token.toList[1]? ≠ some '+' := by
      rw [heq]
      exact hdecimal.not_plus
    constructor
    · rintro ⟨r, hread, hr⟩
      obtain rfl : r = n := by injection hr
      exact ⟨parseRegister_eq_ok_iff.mp hread, hplus⟩
    · rintro ⟨h, -⟩
      exact ⟨n, parseRegister_eq_ok_iff.mpr h, rfl⟩
  · -- the scan has failed, so that the token is a name or an error
    rw [if_neg hscan]
    constructor
    · intro h
      split at h
      · simp at h
      · simp at h
      · split at h
        · simp at h
        · simp at h
    · rintro ⟨h, hplus⟩
      exfalso
      generalize htext : token.toList = text at h hplus
      cases h with
      | digits hdecimal => exact hscan (isRegisterToken_iff.mpr ⟨_, htext, hdecimal⟩)
      | plus => exact hplus rfl

/-- With the plus sign, the register is a name where a name may stand. -/
theorem parseTarget_of_plus (hregister : SpellsRegister true token.toList n)
    (hplus : token.toList[1]? = some '+') : parseTarget token = .ok (.named token) := by
  obtain ⟨cs, heq⟩ : ∃ cs, token.toList = 'r' :: cs := by
    generalize token.toList = text at hregister
    cases hregister with
    | digits => exact ⟨_, rfl⟩
    | plus => exact ⟨_, rfl⟩
  have hscan : ¬isRegisterToken token = true := by
    intro hscan
    obtain ⟨ds, hds, hdecimal⟩ := isRegisterToken_iff.mp hscan
    rw [hds] at hplus
    exact hdecimal.not_plus hplus
  have hquoted : parseQuoted token = none := by
    unfold parseQuoted quotedBody?
    rw [heq]
    rfl
  unfold parseTarget
  rw [if_neg hscan, hquoted, heq]
  rfl

/-! ## Section 3: Instructions -/

/-- The spelling of registers in operands of the kind: only a target takes no liberty. -/
def OperandSpells (kind : OperandKind) (token : Token) (n : UInt8) : Prop :=
  (kind = .register ∧ SpellsRegister true token.text.toList n) ∨
    (kind = .target ∧ SpellsRegister false token.text.toList n)

/-- One operand is a register if and only if its token spells it. -/
theorem registers_zero_iff {kind : OperandKind} {kinds : List OperandKind} {token : Token}
    {a : kind.Carrier Address} {rest : Operands Address kinds}
    (h : parseOperand kind token.text = .ok a) :
    (Operands.registers (kind :: kinds) (a, rest))[0]? = some (some n) ↔
      OperandSpells kind token n := by
  unfold OperandSpells
  cases kind with
  | register =>
    have hread : a = n ↔ SpellsRegister true token.text.toList n := by
      rw [← parseRegister_eq_ok_iff, show parseRegister token.text = .ok a from h]
      exact ⟨congrArg Except.ok, Except.ok.inj⟩
    simpa [Operands.registers] using hread
  | target =>
    have hread : a = .register n ↔ SpellsRegister false token.text.toList n := by
      rw [← parseTarget_eq_register_iff, show parseTarget token.text = .ok a from h]
      exact ⟨congrArg Except.ok, Except.ok.inj⟩
    cases a with
    | register r => simpa [Operands.registers] using hread
    | named name => simpa [Operands.registers] using hread
  | address => simp [Operands.registers]
  | literal => simp [Operands.registers]
  | type => simp [Operands.registers]

/-- Operands are read one by one, each as its kind has it. -/
theorem registers_of_parseOperands {wrongArity : Cause} (kinds : List OperandKind)
    {tokens : List Token} {args : Operands Address kinds}
    (h : parseOperands wrongArity kinds tokens = .ok args) (k : Nat) :
    (Operands.registers kinds args)[k]? = some (some n) ↔
      ∃ kind token, kinds[k]? = some kind ∧ tokens[k]? = some token ∧
        OperandSpells kind token n := by
  induction kinds generalizing tokens k with
  | nil =>
    simp [Operands.registers]
  | cons kind kinds ih =>
    cases tokens with
    | nil => simp [parseOperands] at h
    | cons token tokens =>
      -- the first operand was read, and so were the ones behind it
      obtain ⟨a, hfirst, h⟩ := Except.bind_eq_ok.mp h
      obtain ⟨rest, hrest, h⟩ := Except.bind_eq_ok.mp h
      cases h
      cases k with
      | zero => simpa using registers_zero_iff hfirst
      | succ k => simpa [Operands.registers_succ] using ih hrest k

theorem registers_of_parseInstr {head : Token} {operands : List Token} {i : Instr Address}
    (h : parseInstr head operands = .ok i) (k : Nat) :
    (Operands.registers i.op.shape i.args)[k]? = some (some n) ↔
      ∃ kind token, i.op.shape[k]? = some kind ∧ operands[k]? = some token ∧
        OperandSpells kind token n := by
  unfold parseInstr at h
  split at h
  · simp at h
  · next op hop =>
    by_cases harity : operands.length ≠ op.arity
    · simp [harity] at h
    · simp only [if_neg harity] at h
      obtain ⟨args, hargs, h⟩ := Except.bind_eq_ok.mp h
      cases h
      exact registers_of_parseOperands op.shape hargs k

/-- **Register operands.**  A register operand is read if and only if it is the letter `r` and a
    decimal number below 256, which a plus sign may precede; anything else is an error that names
    the token.  The target of `EXTCALL` is read as a register if and only if it is spelled like this
    without the plus sign.  So both readers agree on the documented registers, and what only the
    first one takes for a register is the name of a host function for the second one.  Of an
    instruction, exactly those operands are registers that the reader for its kind takes for one. -/
theorem registers_are_recognized_as_spelled (token : String) (n : UInt8) :
    (parseRegister token = .ok n ↔ SpellsRegister true token.toList n) ∧
    (parseTarget token = .ok (.register n) ↔ SpellsRegister false token.toList n) ∧
    (SpellsRegister false token.toList n ↔
      SpellsRegister true token.toList n ∧ token.toList[1]? ≠ some '+') ∧
    (parseRegister token = .ok n → parseTarget token =
      .ok (if token.toList[1]? = some '+' then .named token else .register n)) ∧
    ((∃ m, parseRegister token = .ok m) ∨ parseRegister token = .error
      (if token.toList.head? = some 'r' then .invalidRegister token else .expectedRegister token)) ∧
    (∀ (head : Token) (operands : List Token) i, parseInstr head operands = .ok i → ∀ k : Nat,
      (Operands.registers i.op.shape i.args)[k]? = some (some n) ↔
        ∃ kind token, i.op.shape[k]? = some kind ∧ operands[k]? = some token ∧
          OperandSpells kind token n) := by
  refine ⟨parseRegister_eq_ok_iff, parseTarget_eq_register_iff, SpellsRegister.documented_iff,
    fun hread => ?_, ?_, fun head operands i => registers_of_parseInstr⟩
  · have hspells := parseRegister_eq_ok_iff.mp hread
    by_cases hplus : token.toList[1]? = some '+'
    · rw [if_pos hplus]
      exact parseTarget_of_plus hspells hplus
    · rw [if_neg hplus]
      exact parseTarget_eq_register_iff.mpr (SpellsRegister.documented_iff.mpr ⟨hspells, hplus⟩)
  · by_cases hspells : ∃ m, SpellsRegister true token.toList m
    · obtain ⟨m, hm⟩ := hspells
      exact .inl ⟨m, parseRegister_eq_ok_iff.mpr hm⟩
    · exact .inr (parseRegister_eq_error (not_exists.mp hspells))

/-- Zeros in front of the number are no liberty. -/
theorem leading_zeros_spell_the_same_register :
    parseRegister "r007" = .ok 7 ∧ parseTarget "r007" = .ok (.register 7) ∧
    ∃ kind token, Opcode.inc.shape[0]? = some kind ∧ [Token.mk "r007" 5][0]? = some token ∧
      OperandSpells kind token 7 := by
  obtain ⟨-, -, -, htarget, -, hinstr⟩ := registers_are_recognized_as_spelled "r007" 7
  have hparse : parseInstr ⟨"INC", 1⟩ [⟨"r007", 5⟩] = .ok ⟨.inc, (7, ())⟩ :=
    parseInstr_eq_ok (by decide +kernel) rfl rfl
  exact ⟨rfl, htarget rfl, (hinstr _ _ _ hparse 0).mp rfl⟩

/-- With a plus sign, a register operand is read as the register, but a target as the name of a host
    function. -/
theorem register_with_plus_is_read_in_two_ways :
    parseRegister "r+5" = .ok 5 ∧ (∀ n, ¬SpellsRegister false "r+5".toList n) ∧
    parseTarget "r+5" = .ok (.named "r+5") ∧
    (∃ i, parseInstr ⟨"INC", 1⟩ [⟨"r+5", 5⟩] = .ok i ∧
      Operands.registers i.op.shape i.args = [some 5]) ∧
    (∃ i, parseInstr ⟨"EXTCALL", 1⟩ [⟨"r+5", 9⟩] = .ok i ∧
      Operands.registers i.op.shape i.args = [none]) := by
  refine ⟨rfl, fun n h => (SpellsRegister.documented_iff.mp h).2 rfl, rfl, ?_, ?_⟩
  · exact ⟨⟨.inc, (5, ())⟩, parseInstr_eq_ok (by decide +kernel) rfl rfl, rfl⟩
  · exact ⟨⟨.extCall, (.named "r+5", ())⟩, parseInstr_eq_ok (by decide +kernel) rfl rfl, rfl⟩

end Assembly

end ContractVM
