import ContractVM.Assembly.Statement
import ContractVM.Script

/-! # Layout

    Assembly takes two passes.  The first reads all lines, measures instructions
    and gives each label the offset behind the instructions before it; it needs no
    label for this, since every address takes four bytes.  The second resolves the
    labels and places the instructions.

    In front of a script with public labels stands a dispatcher: it pops a name and
    jumps to the public label of that name, or returns if there is none. -/

namespace ContractVM.Assembly

/-- A line with its number.  Added lines have the number 0. -/
structure SourceLine where
  number : Nat
  text : String
  deriving DecidableEq, Repr

/-- The lines of a source, numbered from `first` on. -/
def numbered (first : Nat) : List String → List SourceLine
  | [] => []
  | text :: rest => ⟨first, text⟩ :: numbered (first + 1) rest

/-! ## Section 1: The dispatcher -/

/-- The names of the public labels of a source, in order. -/
def publicNames (lines : List SourceLine) : Except Diagnostic (List String) :=
  match lines with
  | [] => .ok []
  | line :: rest => do
    let tokens ← tokenize line.number line.text
    let names ← publicNames rest
    match (splitLabel tokens).1 with
    | some label => return if label.isPublic then label.name :: names else names
    | none => return names

/-- The lines that compare the selector with one name. -/
def dispatchTo (name : String) : List String :=
  ["LOAD r30, \"" ++ name ++ "\"", "EQUAL r31, r30, r29", "JMPIF r29, " ++ name]

/-- The lines of the dispatcher to public labels. -/
def dispatcher (names : List String) : List SourceLine :=
  if names.isEmpty then []
  else (["POP r31"] ++ names.flatMap dispatchTo ++ ["RET"]).map fun text => ⟨0, text⟩

/-! ## Section 2: The first pass -/

/-- An instruction and the place of its mnemonic. -/
structure Statement where
  line : Nat
  column : Nat
  instr : Instr Address

/-- What the first pass collects; the last element of each list comes first. -/
structure Draft where
  /-- Every label with its offset. -/
  labels : List (String × Nat)
  methods : List NamedOffset
  statements : List Statement
  /-- The length of the code so far. -/
  size : Nat

namespace Draft

def empty : Draft := ⟨[], [], [], 0⟩

/-- Gives a label the offset that the draft has reached. -/
def define (d : Draft) (line : Nat) (label : LabelDef) : Except Diagnostic Draft :=
  if !isLabelName label.name then
    .error ⟨line, label.column, .invalidLabelName label.name⟩
  else if (d.labels.lookup label.name).isSome then
    .error ⟨line, label.column, .duplicateLabel label.name⟩
  else .ok
    { d with
      labels := (label.name, d.size) :: d.labels
      methods :=
        if label.isPublic then (label.name, UInt32.ofNat d.size) :: d.methods else d.methods }

/-- Adds an instruction, given by its tokens. -/
def append (d : Draft) (line : Nat) : List Token → Except Diagnostic Draft
  | [] => .ok d
  | head :: operands =>
    match parseInstr head operands with
    | .error cause => .error ⟨line, head.column, cause⟩
    | .ok instr =>
      let size := d.size + instr.encodedLength
      if UInt32.size ≤ size then .error ⟨line, head.column, .tooLarge⟩
      else .ok { d with statements := ⟨line, head.column, instr⟩ :: d.statements, size }

/-- Adds a line. -/
def addLine (d : Draft) (line : SourceLine) : Except Diagnostic Draft := do
  let tokens ← tokenize line.number line.text
  let (label, tokens) := splitLabel tokens
  let d ← match label with
    | some label => d.define line.number label
    | none => pure d
  d.append line.number tokens

end Draft

/-! ## Section 3: The second pass -/

/-- The offset of an address. -/
def Address.resolve (labels : List (String × Nat)) : Address → Except Cause UInt32
  | .offset n => .ok n
  | .label name =>
    match labels.lookup name with
    | some place => .ok (UInt32.ofNat place)
    | none => .error (.undefinedLabel name)

/-- The code placed so far, and the source lines of its instructions, the last one
    first. -/
structure Image where
  code : Array UInt8
  lines : List (UInt32 × UInt32)

namespace Image

def empty : Image := ⟨#[], []⟩

/-- Places an instruction.  Instructions of added lines have no source line. -/
def place (labels : List (String × Nat)) (image : Image) (s : Statement) :
    Except Diagnostic Image :=
  match s.instr.mapAddress (Address.resolve labels) with
  | .error cause => .error ⟨s.line, s.column, cause⟩
  | .ok instr =>
    let lines :=
      if s.line = 0 then image.lines
      else (UInt32.ofNat image.code.size, UInt32.ofNat s.line) :: image.lines
    .ok ⟨image.code ++ instr.encode, lines⟩

end Image

/-! ## Section 4: Assembly -/

/-- Labels in the order of their offsets, those of one offset in the order of their
    names. -/
def sortedLabels (labels : List (String × Nat)) : List NamedOffset :=
  (labels.mergeSort fun a b => decide (a.2 < b.2) || (a.2 == b.2 && decide (a.1 ≤ b.1))).map
    fun label => (label.1, UInt32.ofNat label.2)

/-- The script of a row of lines. -/
def layout (lines : List SourceLine) : Except Diagnostic Script := do
  let draft ← lines.foldlM Draft.addLine Draft.empty
  let image ← draft.statements.reverse.foldlM (Image.place draft.labels) Image.empty
  return {
    code := image.code
    methods := draft.methods.reverse
    debug := some ⟨sortedLabels draft.labels, image.lines.reverse⟩ }

/-- The script of a source.  It always carries debug information. -/
def assemble (source : String) : Except Diagnostic Script := do
  let lines := numbered 1 (Text.lines source)
  let names ← publicNames lines
  layout (dispatcher names ++ lines)

end ContractVM.Assembly
