import ContractVM.Command.Load

/-! # The assembler command

    Assembles a source file and writes the container of its script. -/

namespace ContractVM.Command

variable {m : Type → Type} [Monad m]

/-- The help text of the assembler. -/
def assemblerUsage (program : String) : String :=
  "Assembly Compiler\n\nUSAGE:\n    " ++ program ++ " <input.asm> [OPTIONS]\n\n" ++
  "ARGS:\n    <input.asm>    Assembly source file to compile\n\n" ++
  "OPTIONS:\n" ++
  "    -o, --output <file>     Output file path (defaults to <input>.bin)\n" ++
  "    -h, --help              Print this help message\n\n" ++
  "EXAMPLES:\n    # Compile to default output name\n    " ++ program ++ " token.asm\n\n" ++
  "    # Compile with explicit output\n    " ++ program ++ " token.asm -o build/token.bin\n"

/-- The output path that the options name; the last one wins. -/
def outputOption (program : String) (output : Option String) :
    List String → Work m (Option String)
  | [] => return output
  | option :: rest => do
    if option = "--output" ∨ option = "-o" then
      match rest with
      | [] => Work.failWith s!"{option} requires an argument"
      | path :: rest => outputOption program (some path) rest
    else
      Work.log .error s!"Unexpected argument: {option}\n"
      Work.log .info (assemblerUsage program)
      Work.exit 1
termination_by options => options.length

/-- Next to the input, with the ending `.bin`. -/
def defaultOutput (input : String) : String :=
  Path.join ((Path.parent? input).getD ".") ((Path.fileStem? input).getD "" ++ ".bin")

/-- Assembles the file `input`. -/
def assembleTo (files : Storage m) (input : String) (output : Option String) : Work m Unit := do
  if !(← Work.ask (files.isPresent input)) then
    Work.failWith s!"Input file does not exist: {input}"
  let output := output.getD (defaultOutput input)
  match Path.parent? output with
  | none => pure ()
  | some parent =>
    if parent ≠ "" then
      if !(← Work.ask (files.isPresent parent)) then
        Work.failWith s!"Output directory does not exist: {parent}"
  match ← assembleFile files input with
  | .error e => Work.failWith s!"Assembly failed: {e.message}"
  | .ok script =>
    let content := script.toBytes.toArray
    match ← Work.ask (files.write output content) with
    | .error e => Work.failWith s!"Failed to write output file: {e.message}"
    | .ok () =>
      Work.log .info (s!"Compiled {input} -> {output} ({content.size} bytes, " ++
        s!"code {script.code.size} bytes, hash {script.digest.text})")
      for (name, offset) in script.methods do
        Work.log .info s!"  pub {name} @ {offset.toNat}"

/-- The assembler with its name and arguments. -/
def assembler (files : Storage m) (program : String) (args : List String) : m Report :=
  Work.report true do
    match args with
    | [] =>
      Work.log .info (assemblerUsage program)
      Work.exit 1
    | input :: options =>
      if input = "--help" ∨ input = "-h" then
        Work.log .info (assemblerUsage program)
      else
        let output ← outputOption program none options
        assembleTo files input output

end ContractVM.Command
