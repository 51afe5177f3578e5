import ContractVM.Assembly.Literal
import ContractVM.Assembly.Token

/-! # Statements

    A line holds an optional label definition and an optional instruction.  Jumps
    name an offset or a label, which is resolved only when all labels are known. -/

namespace ContractVM.Assembly

/-- The address of a jump or a call. -/
inductive Address where
  | offset (n : UInt32)
  | label (name : String)
  deriving DecidableEq, Repr

/-! ## Section 1: Operands -/

/-- May this character stand in a label name?  Digits may not come first. -/
def isLabelStart (c : Char) : Bool :=
  c.isAlpha || c == '_' || c == '.'

/-- Is this a label name: letters, digits, underscores and dots? -/
def isLabelName (name : String) : Bool :=
  match name.toList with
  | [] => false
  | c :: rest => isLabelStart c && rest.all fun d => isLabelStart d || d.isDigit

/-- A register: the letter `r` and a number below 256. -/
def parseRegister (token : String) : Except Cause UInt8 :=
  match token.toList with
  | 'r' :: digits =>
    match Text.parseBounded? 256 digits with
    | some n => .ok (UInt8.ofNat n)
    | none => .error (.invalidRegister token)
  | _ => .error (.expectedRegister token)

/-- Is this the letter `r` followed by digits only? -/
def isRegisterToken (token : String) : Bool :=
  match token.toList with
  | 'r' :: digits => !digits.isEmpty && digits.all Char.isDigit
  | _ => false

/-- A target: a register, or a name with or without quotes. -/
def parseTarget (token : String) : Except Cause Target :=
  if isRegisterToken token then (parseRegister token).map .register
  else match parseQuoted token with
    | some (.ok name) => .ok (.named name)
    | some (.error e) => .error (.invalidLiteral e)
    | none =>
      if token.toList.head? = some '"' then
        .error (.invalidLiteral ⟨token, .unterminatedName⟩)
      else .ok (.named token)

/-- An address: an offset or a label name. -/
def parseAddress (token : String) : Except Cause Address :=
  match Text.parseBounded? UInt32.size token.toList with
  | some n => .ok (.offset (UInt32.ofNat n))
  | none =>
    if isLabelName token then .ok (.label token)
    else .error (.invalidLiteral ⟨token, .noLabelOrOffset⟩)

/-- An operand of a kind. -/
def parseOperand : (kind : OperandKind) → String → Except Cause (kind.Carrier Address)
  | .register, token => parseRegister token
  | .address, token => parseAddress token
  | .literal, token => (parseLiteral token).mapError .invalidLiteral
  | .type, token =>
    match ValueType.ofName? token with
    | some t => .ok t
    | none => .error (.invalidLiteral ⟨token, .unknownType⟩)
  | .target, token => parseTarget token

/-- The operands of a shape, from the first on. -/
def parseOperands (wrongArity : Cause) :
    (kinds : List OperandKind) → List Token → Except Cause (Operands Address kinds)
  | [], [] => .ok ()
  | [], _ :: _ => .error wrongArity
  | _ :: _, [] => .error wrongArity
  | kind :: kinds, token :: tokens => do
    let a ← parseOperand kind token.text
    let rest ← parseOperands wrongArity kinds tokens
    return (a, rest)

/-- An instruction: a mnemonic and the operands of its shape.  Their number is
    checked before any of them is read. -/
def parseInstr (head : Token) (operands : List Token) : Except Cause (Instr Address) :=
  match Opcode.ofMnemonic? head.text with
  | none => .error (.unknownMnemonic head.text)
  | some op =>
    let wrongArity := Cause.wrongArity op operands.length
    if operands.length ≠ op.arity then .error wrongArity
    else do
      let args ← parseOperands wrongArity op.shape operands
      return ⟨op, args⟩

/-! ## Section 2: Labels -/

/-- The definition of a label. -/
structure LabelDef where
  name : String
  /-- Is the label a public method? -/
  isPublic : Bool
  column : Nat
  deriving DecidableEq, Repr

/-- The name that a token defines: all but the colon at its end. -/
def definedName? (token : Token) : Option String :=
  let cs := token.text.toList
  if cs.getLast? = some ':' ∧ 1 < cs.length then some (String.ofList cs.dropLast) else none

/-- Splits the tokens of a line into a label definition and the rest. -/
def splitLabel (tokens : List Token) : Option LabelDef × List Token :=
  match tokens with
  | [] => (none, [])
  | first :: rest =>
    match first.text == "pub", rest.head?.bind definedName?, rest with
    | true, some name, second :: rest => (some ⟨name, true, second.column⟩, rest)
    | _, _, rest =>
      match definedName? first with
      | some name => (some ⟨name, false, first.column⟩, rest)
      | none => (none, tokens)

end ContractVM.Assembly
