import ContractVM.Assembly.Diagnostic
import ContractVM.Isa.Instr
import ContractVM.Text.Hex

/-! # Literals as text

    The notation of constants: a word for none and the Booleans, decimal numbers,
    texts in double quotes, bytes in hexadecimal, and marked numbers for timestamps
    and enums. -/

namespace ContractVM.Assembly

/-- The characters that the body of a quoted text stands for. -/
def unescape? : List Char → Option (List Char)
  | [] => some []
  | '\\' :: '"' :: rest => (unescape? rest).map ('"' :: ·)
  | '\\' :: '\\' :: rest => (unescape? rest).map ('\\' :: ·)
  | '\\' :: 'n' :: rest => (unescape? rest).map ('\n' :: ·)
  | '\\' :: 't' :: rest => (unescape? rest).map ('\t' :: ·)
  | '\\' :: _ => none
  | c :: rest => (unescape? rest).map (c :: ·)

/-- What stands between the first and the last character, if both are quotes. -/
def quotedBody? : List Char → Option (List Char)
  | '"' :: rest => if rest.getLast? = some '"' then some rest.dropLast else none
  | _ => none

/-- The bytes that pairs of hexadecimal digits stand for. -/
def hexPairs? : List Char → Option (List UInt8)
  | [] => some []
  | a :: b :: rest => do
    let byte ← Text.hexPair? a b
    let bytes ← hexPairs? rest
    return byte :: bytes
  | [_] => none

/-- A quoted text: none if the token is not quoted. -/
def parseQuoted (token : String) : Option (Except LiteralError String) :=
  (quotedBody? token.toList).map fun body =>
    match unescape? body with
    | some cs => .ok (String.ofList cs)
    | none => .error ⟨token, .unknownEscape⟩

/-- The bytes behind the mark of a hexadecimal literal. -/
def parseHex (token : String) (digits : List Char) : Except LiteralError (Array UInt8) :=
  if (String.ofList digits).utf8ByteSize % 2 ≠ 0 then .error ⟨token, .oddHexDigits⟩
  else match hexPairs? digits with
    | some bytes => .ok bytes.toArray
    | none => .error ⟨token, .invalidHexDigit⟩

/-- The unsigned number behind the mark of a timestamp or an enum. -/
def parseWord32 (token : String) (digits : List Char) : Except LiteralError UInt32 :=
  match Text.parseBounded? UInt32.size digits with
  | some n => .ok (UInt32.ofNat n)
  | none => .error ⟨token, .noWord32⟩

/-- The literal that an unquoted token stands for. -/
def parseBare (token : String) : Except LiteralError Literal :=
  match token.toList with
  | '0' :: 'x' :: digits => (parseHex token digits).map .bytes
  | 't' :: 's' :: ':' :: digits => (parseWord32 token digits).map .timestamp
  | 'e' :: 'n' :: 'u' :: 'm' :: ':' :: digits => (parseWord32 token digits).map .enum
  | _ =>
    match Text.parseInteger? token with
    | some n => .ok (.number n)
    | none => .error ⟨token, .unrecognized⟩

/-- The literal that a token stands for. -/
def parseLiteral (token : String) : Except LiteralError Literal :=
  match parseQuoted token with
  | some text => text.map .string
  | none =>
    if token = "none" then .ok .none
    else if token = "true" then .ok (.bool true)
    else if token = "false" then .ok (.bool false)
    else parseBare token

end ContractVM.Assembly
