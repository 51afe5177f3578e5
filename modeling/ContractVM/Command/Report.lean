import ContractVM.Command.Storage
import ContractVM.Machine.Run

/-! # Reports

    What a command shows while it works, and how it ends.  Log lines go to the
    error stream with their level and, if they are stamped, with the time before
    it; rendered diagnostics go there as they are. -/

namespace ContractVM.Command

/-- Something that a command shows. -/
inductive Event where
  | log (level : LogLevel) (text : String)
  /-- A text for the error stream. -/
  | diagnostic (text : String)
  /-- A line for the output stream. -/
  | output (line : String)
  deriving DecidableEq, Repr

/-- The word for a level in log lines. -/
def levelName : LogLevel → String
  | .debug => "DEBUG"
  | .info => "INFO"
  | .warn => "WARN"
  | .error => "ERROR"

/-- What a command has shown, and the code with which it ends. -/
structure Report where
  exitCode : Nat
  /-- Do log lines begin with the time? -/
  stamped : Bool
  events : Array Event
  deriving DecidableEq, Repr

namespace Report

/-- The text of an event on the error stream; `stamp` stands for the time. -/
def errorText (r : Report) (stamp : String) : Event → String
  | .log level text =>
    (if r.stamped then stamp ++ " " else "") ++ "[" ++ levelName level ++ "] " ++ text ++ "\n"
  | .diagnostic text => text ++ "\n"
  | .output _ => ""

/-- The text of an event on the output stream. -/
def outputText : Event → String
  | .output line => line ++ "\n"
  | _ => ""

/-- All that goes to the error stream. -/
def errors (r : Report) (stamp : String) : String :=
  String.join (r.events.toList.map (r.errorText stamp))

/-- All that goes to the output stream. -/
def outputs (r : Report) : String :=
  String.join (r.events.toList.map outputText)

end Report

/-! ## Commands

    A command shows events, works on files in the monad `m`, and may end early with
    an exit code. -/

/-- The work of a command over the file operations of `m`. -/
abbrev Work (m : Type → Type) (α : Type) := ExceptT Nat (StateT (Array Event) m) α

namespace Work

variable {m : Type → Type} [Monad m] {α : Type}

def emit (e : Event) : Work m Unit :=
  modify fun events => events.push e

def log (level : LogLevel) (text : String) : Work m Unit :=
  emit (.log level text)

/-- Ends the command with a code. -/
def exit (code : Nat) : Work m α := throw code

/-- Ends the command with an error line. -/
def failWith (text : String) : Work m α := do
  log .error text
  exit 1

/-- Asks for a file operation. -/
def ask (operation : m α) : Work m α :=
  ExceptT.lift (StateT.lift operation)

/-- Runs a command to its report. -/
def report (stamped : Bool) (work : Work m Unit) : m Report := do
  let (result, events) ← work.run.run #[]
  let exitCode := match result with
    | .ok () => 0
    | .error code => code
  return ⟨exitCode, stamped, events⟩

end Work

end ContractVM.Command
