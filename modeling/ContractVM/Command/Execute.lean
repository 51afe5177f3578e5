import ContractVM.Assembly.Literal
import ContractVM.Command.Load

/-! # The runner command

    Loads a script and the contexts it may enter, runs it and shows what it left on
    the evaluation stack. -/

namespace ContractVM.Command

variable {m : Type → Type} [Monad m]

/-- The help text of the runner. -/
def runnerUsage (program : String) : String :=
  "Smart Contract VM\n\nUSAGE:\n    " ++ program ++ " <script> [OPTIONS]\n\n" ++
  "ARGS:\n" ++
  "    <script>    Assembly source, or a .bin script written by the assembler\n\n" ++
  "OPTIONS:\n" ++
  "    --trace                Log every dispatched instruction\n" ++
  "    --registers <n>        Registers per frame (defaults to 32)\n" ++
  "                           Scripts with public methods need at least 32\n" ++
  "    --ctx <name=path>      Register another script as a context (repeatable)\n" ++
  "    --method <name>        Enter the script at a public method\n" ++
  "    --push <literal>       Push an argument before running (repeatable)\n" ++
  "    -h, --help             Print this help message\n\n" ++
  "ENVIRONMENT:\n    CHAINVM_LOG_TIMESTAMPS=0    Omit timestamps from log lines\n\n" ++
  "EXAMPLES:\n    # Run a script from offset 0\n    " ++ program ++ " token.asm\n\n" ++
  "    # Call a public method with two arguments\n    " ++ program ++
  " token.asm --method transfer --push \"\\\"alice\\\"\" --push 10\n\n" ++
  "    # Switch into another context from the entry script\n    " ++ program ++
  " wallet.asm --ctx token=token.bin --trace\n"

/-! ## Section 1: Options -/

/-- What the options of the runner say. -/
structure RunOptions where
  config : Config
  /-- The names of further contexts, with the paths of their scripts. -/
  contexts : List (String × String)
  method : Option String
  /-- The values to push, the first one first. -/
  arguments : List Value

/-- The values that no option changes. -/
def RunOptions.initial : RunOptions := ⟨{}, [], none, []⟩

/-- What is wrong with the options of the runner. -/
inductive OptionError where
  | missingArgument (option : String)
  | badRegisterCount (text : String)
  | badContext (text : String)
  | badLiteral (e : Assembly.LiteralError)
  | unexpected (option : String)
  deriving DecidableEq, Repr

/-- The text shown for bad options. -/
def OptionError.message : OptionError → String
  | .missingArgument option => s!"{option} requires an argument"
  | .badRegisterCount text => s!"Invalid register count: '{text}' (expected 1..=256)"
  | .badContext text => s!"Invalid context: '{text}' (expected name=path)"
  | .badLiteral e => s!"Invalid argument literal: {e.message}"
  | .unexpected option => s!"Unexpected argument: {option}\n"

/-- Splits a text at its first equals sign into two parts that are not empty. -/
def splitBinding? (text : String) : Option (String × String) :=
  let cs := text.toList
  let name := cs.takeWhile (· ≠ '=')
  match cs.dropWhile (· ≠ '=') with
  | '=' :: path =>
    if name.isEmpty || path.isEmpty then none
    else some (String.ofList name, String.ofList path)
  | _ => none

/-- Takes in an option that has an argument. -/
def RunOptions.set (o : RunOptions) (option argument : String) : Except OptionError RunOptions :=
  if option = "--registers" then
    match Text.parseBounded? 257 argument.toList with
    | some (n + 1) => .ok { o with config := { o.config with registers := n + 1 } }
    | _ => .error (.badRegisterCount argument)
  else if option = "--ctx" then
    match splitBinding? argument with
    | some binding => .ok { o with contexts := o.contexts ++ [binding] }
    | none => .error (.badContext argument)
  else if option = "--method" then .ok { o with method := some argument }
  else
    match Assembly.parseLiteral argument with
    | .ok literal => .ok { o with arguments := o.arguments ++ [literal.value] }
    | .error e => .error (.badLiteral e)

/-- The options of the runner that have an argument. -/
def argumentOptions : List String := ["--registers", "--ctx", "--method", "--push"]

/-- Reads the options from the first on, and stops at the first error. -/
def RunOptions.parse (o : RunOptions) : List String → Except OptionError RunOptions
  | [] => .ok o
  | "--trace" :: rest => RunOptions.parse { o with config := { o.config with trace := true } } rest
  | option :: rest =>
    if option ∈ argumentOptions then
      match rest with
      | [] => .error (.missingArgument option)
      | argument :: rest => do
        let o ← o.set option argument
        RunOptions.parse o rest
    else .error (.unexpected option)
termination_by options => options.length

/-! ## Section 2: The run -/

/-- Scripts that are run from the command line carry no data of a host. -/
instance : HostData Empty where
  typeName x := nomatch x
  same x := nomatch x
  duplicate x := x

/-- The host functions of the command line: one shows a value, one faults. -/
def commandInterops : InteropTable Empty :=
  ⟨[("Runtime.Log", do
      let v ← HostProgram.pop
      let view ← HostProgram.view
      HostProgram.note .info s!"{view.context.name} says: {view.heap.display v}"
      return .resume),
    ("Runtime.Abort", return .fault)]⟩

/-- Loads and registers the further contexts. -/
def registerContexts (files : Storage m) : Registry → List (String × String) → Work m Registry
  | registry, [] => return registry
  | registry, (name, path) :: rest => do
    match ← loadScript files path with
    | .error e => Work.failWith s!"Failed to load context '{name}' from {path}: {e.message}"
    | .ok script =>
      match registry.register name script with
      | .error e => Work.failWith e.message
      | .ok (_, registry) => registerContexts files registry rest

/-- Pushes values from the first on. -/
def pushAll (config : Config) : List Value → Machine Empty → Work m (Machine Empty)
  | [], machine => return machine
  | v :: rest, machine =>
    match machine.push config v with
    | (.error f, _) => Work.failWith f.message
    | (.ok (), machine) => pushAll config rest machine

/-- Shows what a machine noted; notes for debugging only if they are wanted. -/
def showJournal (debug : Bool) (machine : Machine Empty) : Work m Unit :=
  for entry in machine.journal do
    if debug || entry.level != .debug then
      Work.log entry.level entry.text

/-- Shows values of the evaluation stack from the top down, with their depths. -/
def showStack (machine : Machine Empty) : Nat → List Value → Work m Unit
  | _, [] => return ()
  | depth, v :: rest => do
    Work.emit (.output (Text.padLeft ' ' 3 (toString depth) ++
      s!": {machine.heap.display v} ({v.type.name})"))
    showStack machine (depth + 1) rest

/-- Shows how a run ended. -/
def showOutcome : Outcome Empty Unit → Work m Unit
  | (.error f, machine) => do
    match f.userMessage? with
    | some message => Work.log .error s!"Script threw: {message}"
    | none => Work.log .error s!"Execution failed: {f.message}"
    match machine.faultSite with
    | some site => Work.log .error s!"  at {site.text}"
    | none => pure ()
    Work.exit 1
  | (.ok (), machine) => do
    Work.log .info (s!"{machine.frame.context.name} halted with {machine.stack.size} " ++
      "value(s) on the stack")
    showStack machine 0 machine.stack.toList.reverse

/-- Runs the script at a path as the options say, for at most `fuel` steps. -/
def runScript (files : Storage m) (fuel : Nat) (path : String) (o : RunOptions) :
    Work m Unit := do
  let registry ← registerContexts files Registry.empty o.contexts
  match ← loadScript files path with
  | .error e => Work.failWith s!"Failed to load {path}: {e.message}"
  | .ok script =>
    match registry.register ((Path.fileStem? path).getD "main") script with
    | .error e => Work.failWith e.message
    | .ok (entry, registry) =>
      let env : Env Empty := ⟨o.config, entry, registry, commandInterops⟩
      let machine ← pushAll o.config o.arguments (Machine.initial o.config entry Heap.empty)
      match machine.runFrom env fuel o.method with
      | none => Work.failWith "Execution did not end"
      | some outcome =>
        showJournal o.config.trace outcome.2
        showOutcome outcome

/-- The runner with its name and arguments.  Help is always stamped with the time;
    other log lines are if `stamped` says so. -/
def runner (files : Storage m) (fuel : Nat) (stamped : Bool) (program : String)
    (args : List String) : m Report :=
  match args with
  | [] => Work.report true do
    Work.log .info (runnerUsage program)
    Work.exit 1
  | path :: options =>
    if path = "--help" ∨ path = "-h" then
      Work.report true (Work.log .info (runnerUsage program))
    else Work.report stamped do
      match RunOptions.initial.parse options with
      | .ok o => runScript files fuel path o
      | .error e =>
        Work.log .error e.message
        match e with
        | .unexpected _ => Work.log .info (runnerUsage program)
        | _ => pure ()
        Work.exit 1

end ContractVM.Command
