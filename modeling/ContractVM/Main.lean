import ContractVM.Command.Assemble
import ContractVM.Command.Execute
import Std.Time.Format

/-! # The command line

    The commands over the files and the clock of the system.  The program is the
    assembler if it is called by that name, and the runner otherwise. -/

namespace ContractVM.Command

/-- The error with a number of the system, which may come with its sign changed. -/
def StorageError.ofCode (code : UInt32) (text : String) : StorageError :=
  let number := if code < 0x80000000 then code.toNat else (-code).toNat
  if number = notFound.code then notFound
  else if number = notDirectory.code then notDirectory
  else if number = isDirectory.code then isDirectory
  else if number = nameTooLong.code then nameTooLong
  else ⟨number, text⟩

/-- Why a file operation failed. -/
def StorageError.ofSystem : IO.Error → StorageError
  | .alreadyExists _ code text => ofCode code text
  | .otherError code text => ofCode code text
  | .resourceBusy code text => ofCode code text
  | .resourceVanished code text => ofCode code text
  | .unsupportedOperation code text => ofCode code text
  | .hardwareFault code text => ofCode code text
  | .unsatisfiedConstraints code text => ofCode code text
  | .illegalOperation code text => ofCode code text
  | .protocolError code text => ofCode code text
  | .timeExpired code text => ofCode code text
  | .interrupted _ code text => ofCode code text
  | .noFileOrDirectory _ code text => ofCode code text
  | .invalidArgument _ code text => ofCode code text
  | .permissionDenied _ code text => ofCode code text
  | .resourceExhausted _ code text => ofCode code text
  | .inappropriateType _ code text => ofCode code text
  | .noSuchThing _ code text => ofCode code text
  | .unexpectedEof => ⟨0, "unexpected end of file"⟩
  | .userError text => ⟨0, text⟩

/-- The files of the system. -/
def systemStorage : Storage IO where
  isPresent path := do
    if path = "" then return false
    let place := (← IO.currentDir) / path
    place.pathExists
  read path := do
    try
      let content ← IO.FS.readBinFile path
      return .ok content.data
    catch e => return .error (.ofSystem e)
  write path content := do
    try
      IO.FS.writeBinFile path ⟨content⟩
      return .ok ()
    catch e => return .error (.ofSystem e)

/-- The universal time, as it stands before log lines. -/
def timeStamp : IO String := do
  let now ← Std.Time.Timestamp.now
  let time := Std.Time.DateTime.ofTimestamp now Std.Time.TimeZone.ZoneRules.UTC
  return time.format "uuuu-MM-dd HH:mm:ss.SSS"

/-- More steps than a run can take in a lifetime. -/
def lifetime : Nat := 4000000000000000000

end ContractVM.Command

open ContractVM.Command in
/-- Runs the command that the program's name and arguments ask for. -/
def main (args : List String) : IO UInt32 := do
  let program := (← IO.appPath).toString
  let stamped := (← IO.getEnv "CHAINVM_LOG_TIMESTAMPS") != some "0"
  let report ←
    if Path.fileName? program = some "assembler" then assembler systemStorage program args
    else runner systemStorage lifetime stamped program args
  IO.eprint (report.errors (← timeStamp))
  IO.print report.outputs
  return UInt32.ofNat report.exitCode
