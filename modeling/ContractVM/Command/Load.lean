import ContractVM.Assembly.Layout
import ContractVM.Command.Path
import ContractVM.Command.Report

/-! # Loading scripts

    A script is read from a container if its path ends in `.bin`, and assembled
    from source otherwise. -/

namespace ContractVM.Command

/-- Why a script cannot be loaded. -/
inductive LoadError where
  /-- The file cannot be read; the text names it and says why. -/
  | unreadable (text : String)
  | badContainer (e : Script.FormatError)
  | badSource (d : Assembly.Diagnostic)
  deriving DecidableEq, Repr

/-- The text shown for a script that cannot be loaded. -/
def LoadError.message : LoadError → String
  | .unreadable text => s!"io error: {text}"
  | .badContainer e => e.message
  | .badSource d => d.message

variable {m : Type → Type} [Monad m]

/-- Assembles the file at a path.  A diagnostic is shown at once. -/
def assembleFile (files : Storage m) (path : String) : Work m (Except LoadError Script) := do
  match ← Work.ask (files.read path) with
  | .error e => return .error (.unreadable s!"{path}: {e.message}")
  | .ok content =>
    match String.fromUTF8? ⟨content⟩ with
    | none => return .error (.unreadable s!"{path}: stream did not contain valid UTF-8")
    | some source =>
      match Assembly.assemble source with
      | .ok script => return .ok script
      | .error d =>
        Work.emit (.diagnostic (d.render path source))
        return .error (.badSource d)

/-- Loads the script at a path. -/
def loadScript (files : Storage m) (path : String) : Work m (Except LoadError Script) := do
  if Path.extension? path = some "bin" then
    match ← Work.ask (files.read path) with
    | .error e => return .error (.unreadable s!"{path}: {e.message}")
    | .ok content => return (Script.ofBytes? content.toList).mapError .badContainer
  else assembleFile files path

end ContractVM.Command
