import ContractVM.Isa.Fetch

/-! # Faults

    A fault ends the run in which it arises.  Each cause is a constructor; the
    wording is in `Fault.message`. -/

namespace ContractVM

/-- The largest shift count or exponent. -/
def maxShift : Nat := 65536

/-- How many structs may be nested in one another. -/
def maxNesting : Nat := 128

/-- What an operation needed where it found a value of another type. -/
inductive Expectation where
  | type (t : ValueType)
  | textOrBytes
  | scalarKey
  /-- A host value of the named type. -/
  | host (typeName : String)
  deriving DecidableEq, Repr

/-- The name of what was expected. -/
def Expectation.name : Expectation → String
  | .type t => t.name
  | .textOrBytes => "String or Bytes"
  | .scalarKey => "scalar key"
  | .host typeName => typeName

/-- Why an index, a length, a shift count or a conversion is out of range. -/
inductive RangeProblem where
  | nesting
  | endOverflow
  | beyondSize (first last size : Nat)
  | splitsCharacter (first last : Nat)
  | longerThan (length size : Nat)
  | invalidUtf8
  | timestamp (n : Int)
  | enum (n : Int)
  | shift (n : Int)
  | index (n : Int)
  /-- A reason that a host function gives. -/
  | host (reason : String)
  deriving DecidableEq, Repr

/-- The text shown for a range problem. -/
def RangeProblem.message : RangeProblem → String
  | .nesting => s!"struct nesting exceeds {maxNesting}"
  | .endOverflow => "range end overflows"
  | .beyondSize first last size => s!"range {first}..{last} exceeds length {size}"
  | .splitsCharacter first last => s!"range {first}..{last} splits a UTF-8 character"
  | .longerThan length size => s!"length {length} exceeds size {size}"
  | .invalidUtf8 => "bytes are not valid UTF-8"
  | .timestamp n => s!"{n} does not fit a timestamp"
  | .enum n => s!"{n} does not fit an enum"
  | .shift n => s!"shift {n} outside 0..={maxShift}"
  | .index n => s!"{n} is not a valid index"
  | .host reason => reason

/-- Why a run, or an operation of the host on a machine, fails.  A text named
    `instruction` says which operation asked. -/
inductive Fault where
  /-- An operand has the wrong type. -/
  | invalidCast (instruction : String) (expected : Expectation) (actual : ValueType)
  | stackUnderflow (instruction : String)
  | stackOverflow (limit : Nat)
  | callDepthExceeded (limit : Nat)
  /-- The entry script has no public method of this name. -/
  | unknownLabel (label : String)
  | invalidJumpTarget (target length : Nat)
  | unknownContext (name : String)
  | unknownInterop (name : String)
  /-- The script itself faulted, by `THROW`. -/
  | userThrow (message : String)
  | interopFault (name reason : String)
  /-- A run was asked for while another was in progress. -/
  | nestedRun
  | divisionByZero (instruction : String)
  | outOfRange (instruction : String) (problem : RangeProblem)
  | cyclicStructure
  /-- A script with public methods needs the registers of its dispatcher. -/
  | tooFewRegisters (context : String) (required available : Nat)
  | invalidRegisterIndex (index : UInt8) (available : Nat)
  /-- The code cannot be read. -/
  | code (f : CodeFault)
  deriving DecidableEq, Repr

namespace Fault

/-- The text shown for a fault. -/
def message : Fault → String
  | .invalidCast instruction expected actual =>
    s!"{instruction}: expected {expected.name} but got {actual.name}"
  | .stackUnderflow instruction => s!"{instruction}: evaluation stack underflow"
  | .stackOverflow limit => s!"evaluation stack overflow (limit {limit})"
  | .callDepthExceeded limit => s!"call depth exceeded (limit {limit})"
  | .unknownLabel label => s!"unknown label: {label}"
  | .invalidJumpTarget target length => s!"jump target {target} outside code of length {length}"
  | .unknownContext name => s!"unknown context: {name}"
  | .unknownInterop name => s!"unknown interop: {name}"
  | .userThrow message => s!"script threw: {message}"
  | .interopFault name reason => s!"interop {name} failed: {reason}"
  | .nestedRun => "VM is already running; an interop cannot start a nested run"
  | .divisionByZero instruction => s!"{instruction}: division by zero"
  | .outOfRange instruction problem => s!"{instruction}: {problem.message}"
  | .cyclicStructure => "put would create a cyclic structure"
  | .tooFewRegisters context required available =>
    s!"{context} has public methods and needs {required} registers, VM has {available}"
  | .invalidRegisterIndex index available =>
    s!"register index {index.toNat} out of bounds ({available} available)"
  | .code f => f.message

/-- The message of a script's own `THROW`, if the fault is one. -/
def userMessage? : Fault → Option String
  | .userThrow message => some message
  | _ => none

end Fault

end ContractVM
