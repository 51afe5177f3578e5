import ContractVM.Assembly.Diagnostic
import ContractVM.Text.Blank

/-! # Tokens

    A line is cut into tokens at commas, spaces and tabs.  A double quote opens and
    closes a stretch in which these do not count, and in which a backslash hides
    the character behind it.  A number sign outside quotes ends the row of tokens;
    one that directly follows a token belongs to that token, with the rest of the
    line. -/

namespace ContractVM.Assembly

/-- A piece of a line, and the column at which it starts. -/
structure Token where
  text : String
  column : Nat
  deriving DecidableEq, Repr

namespace Token

/-- Does this character separate tokens? -/
def isSeparator (c : Char) : Bool :=
  c == ',' || c == ' ' || c == '\t'

/-- A token that is being read: its column and its characters so far, the last one
    first. -/
structure Partial where
  column : Nat
  read : List Char

namespace Partial

def add (p : Partial) (c : Char) : Partial := { p with read := c :: p.read }

/-- The finished token without blanks at its ends, unless nothing else is left. -/
def finish (p : Partial) : List Token :=
  match Text.trim p.read.reverse with
  | [] => []
  | cs => [⟨String.ofList cs, p.column⟩]

end Partial

/-- Where the reading of a line stands. -/
inductive Mode where
  | between
  | plain (p : Partial)
  | quoted (p : Partial)

/-- The tokens of the rest of a line, which starts after `position` bytes; the
    column of the token that is open if a quote is not closed. -/
def scan (position : Nat) : Mode → List Char → Except Nat (List Token)
  | .between, [] => .ok []
  | .plain p, [] => .ok p.finish
  | .quoted p, [] => .error p.column
  | .quoted p, '\\' :: d :: rest =>
    scan (position + 1 + d.utf8Size) (.quoted ((p.add '\\').add d)) rest
  | .quoted p, c :: rest =>
    scan (position + c.utf8Size) (if c = '"' then .plain (p.add c) else .quoted (p.add c)) rest
  | .between, c :: rest =>
    if c = '#' then .ok []
    else if isSeparator c then scan (position + 1) .between rest
    else
      let p : Partial := ⟨position + 1, [c]⟩
      scan (position + c.utf8Size) (if c = '"' then .quoted p else .plain p) rest
  | .plain p, c :: rest =>
    if c = '#' then .ok { p with read := rest.reverse ++ '#' :: p.read }.finish
    else if isSeparator c then do
      let tokens ← scan (position + 1) .between rest
      return p.finish ++ tokens
    else
      scan (position + c.utf8Size)
        (if c = '"' then .quoted (p.add c) else .plain (p.add c)) rest

end Token

/-- The tokens of a line. -/
def tokenize (line : Nat) (text : String) : Except Diagnostic (List Token) :=
  match Token.scan 0 .between text.toList with
  | .ok tokens => .ok tokens
  | .error column => .error ⟨line, column, .unterminatedString⟩

end ContractVM.Assembly
