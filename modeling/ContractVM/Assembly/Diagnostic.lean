import ContractVM.Isa.Opcode
import ContractVM.Text.Decimal
import ContractVM.Text.Lines
import ContractVM.Text.Quoted

/-! # Diagnostics

    What can be wrong with assembly text, and how it is reported: a message, the
    place in the source, and the line with a mark under the column. -/

namespace ContractVM.Assembly

/-- Why a token is no literal, or no operand in the notation of one. -/
inductive LiteralProblem where
  | oddHexDigits
  | invalidHexDigit
  | noWord32
  | unknownEscape
  | unrecognized
  | unknownType
  | unterminatedName
  | noLabelOrOffset
  deriving DecidableEq, Repr

/-- The text shown for a token that is no literal. -/
def LiteralProblem.message : LiteralProblem → String
  | .oddHexDigits => "odd number of hex digits"
  | .invalidHexDigit => "invalid hex digit"
  | .noWord32 => "expected an unsigned 32-bit number"
  | .unknownEscape => "unknown escape sequence"
  | .unrecognized => "unrecognized literal"
  | .unknownType => "unknown value type"
  | .unterminatedName => "unterminated interop name"
  | .noLabelOrOffset => "expected a label or offset"

/-- A token that should be a literal, and why it is not. -/
structure LiteralError where
  token : String
  problem : LiteralProblem
  deriving DecidableEq, Repr

/-- The text shown for a bad literal. -/
def LiteralError.message (e : LiteralError) : String :=
  s!"invalid literal {e.token}: " ++ e.problem.message

/-- Why a line of assembly text is refused. -/
inductive Cause where
  | unterminatedString
  | invalidLabelName (name : String)
  | duplicateLabel (name : String)
  | undefinedLabel (name : String)
  | unknownMnemonic (name : String)
  | wrongArity (op : Opcode) (actual : Nat)
  | expectedRegister (token : String)
  | invalidRegister (token : String)
  | invalidLiteral (e : LiteralError)
  /-- The code would not fit the offsets of 32 bits. -/
  | tooLarge
  deriving DecidableEq, Repr

namespace Cause

/-- The text shown for a cause. -/
def message : Cause → String
  | .unterminatedString => "unterminated string literal (missing closing quote)"
  | .invalidLabelName name => "invalid label name " ++ Text.quoted name
  | .duplicateLabel name => s!"duplicate label: {name}"
  | .undefinedLabel name => s!"undefined label: {name}"
  | .unknownMnemonic name => s!"invalid instruction name: {name}"
  | .wrongArity op actual => s!"{op.mnemonic} expects {op.arity} operands, got {actual}"
  | .expectedRegister token => s!"expected register, got {token}"
  | .invalidRegister token => s!"invalid register {token}"
  | .invalidLiteral e => e.message
  | .tooLarge => "script exceeds the 4 GiB address space"

/-- Is the line broken as a row of tokens, rather than in what the tokens say? -/
def isLexical : Cause → Bool
  | .unterminatedString | .invalidLabelName _ => true
  | _ => false

end Cause

/-- A cause and its place.  Lines and columns count from 1, columns in bytes;
    line 0 is text that the assembler added. -/
structure Diagnostic where
  line : Nat
  column : Nat
  cause : Cause
  deriving DecidableEq, Repr

/-- The text shown for a diagnostic. -/
def Diagnostic.message (d : Diagnostic) : String :=
  s!"line {d.line}:{d.column}: " ++ d.cause.message

/-- The line without the carriage returns at its end. -/
def trimReturns (line : String) : String :=
  String.ofList (line.toList.reverse.dropWhile (· == '\r')).reverse

/-- A message with its place and, if the source has that line, the line with a mark
    under the column. -/
def render (file source : String) (line column : Nat) (message : String) : String :=
  let head := s!"error: {message}\n --> {file}:{line}:{column}\n"
  let excerpt := if line = 0 then none else (Text.lines source)[line - 1]?
  match excerpt with
  | none => head
  | some text =>
    head ++ "  |\n" ++ Text.padLeft ' ' 4 (toString line) ++ " | " ++ trimReturns text ++
      "\n  | " ++ String.ofList (List.replicate (column - 1) ' ') ++ "^\n"

/-- A diagnostic of a source, rendered. -/
def Diagnostic.render (d : Diagnostic) (file source : String) : String :=
  Assembly.render file source d.line d.column d.cause.message

end ContractVM.Assembly
