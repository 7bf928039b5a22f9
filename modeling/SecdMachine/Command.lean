import SecdMachine.Console
import SecdMachine.Options
import SecdMachine.Pipeline
import SecdMachine.SettingsFile

/-!
The command: options and settings decide what a pipeline does, files and standard input give it the
program and the arguments. It maps arguments, files and input to output, exit status and the files to
save. A file is read as one text, so its lines do not matter.
-/

namespace SecdMachine

inductive ProgramFileError where
  | unreadable (path : String) (error : FileError)
  | empty (path : String)
  | malformed (path : String) (error : ReadError)
  deriving DecidableEq, Repr

namespace ProgramFileError

def message : ProgramFileError → String
  | unreadable path error => "sexp: read " ++ path ++ ": " ++ error.message path
  | empty path => "pipeline: " ++ path ++ " contains no expression"
  | malformed path error => "pipeline: " ++ path ++ ": " ++ error.message

end ProgramFileError

namespace ProgramFile

def source (tree : FileTree) (path : String) : Except ProgramFileError LineSource :=
  match tree.read path with
  | .ok content => .ok (.ofText (Text.decode content))
  | .error error => .error (.unreadable path error)

def read (tree : FileTree) (path : String) : Except ProgramFileError Datum := do
  let source ← source tree path
  match (Reader.read {} source).outcome with
  | .ok datum => return datum
  | .error .endOfInput => throw (.empty path)
  | .error error => throw (.malformed path error)

end ProgramFile

inductive StandardInput where
  | terminal (typed : Text.Bytes)
  | stream (content : Text.Bytes)
  deriving DecidableEq, Repr

/-- What the command works with. `runName` is how messages call a run, and `fuel` bounds the number
of instructions of each run from outside. -/
structure Surroundings where
  tree : FileTree
  input : StandardInput
  runName : String
  fuel : Nat
  deriving DecidableEq, Repr

inductive OutputStream where
  | standard
  | error
  deriving DecidableEq, Repr

structure Outcome where
  status : Nat
  output : List (OutputStream × String)
  saved : Option (String × Text.Bytes) := none
  deriving DecidableEq, Repr

namespace Outcome

def text (outcome : Outcome) (stream : OutputStream) : String :=
  String.join ((outcome.output.filter fun written => written.1 = stream).map Prod.snd)

def treeAfter (outcome : Outcome) (tree : FileTree) : FileTree :=
  match outcome.saved with
  | some (path, content) => tree.write path content
  | none => tree

end Outcome

inductive CommandError where
  | settings (error : SettingsError)
  | file (error : ProgramFileError)
  | tooManyFiles (count : Nat)
  deriving DecidableEq, Repr

namespace CommandError

def message : CommandError → String
  | settings error => error.message
  | file error => error.message
  | tooManyFiles count =>
      "expected at most 2 files (program, arguments), got " ++ toString count

end CommandError

namespace Command

def entries : List OptionEntry :=
  [⟨"S", .toggle, "Program is already compiled bytecode; run it directly"⟩,
   ⟨"asm", .toggle, "Assemble symbolic mnemonics in the code before running"⟩,
   ⟨"compiler", .text,
    "Bootstrap compiler bytecode (default from lispkit.toml, else compiler.secd)"⟩,
   ⟨"config", .text,
    "Configuration file (default: lispkit.toml found from the working directory)"⟩,
   ⟨"disasm", .toggle, "Print a mnemonic listing of the code before running"⟩,
   ⟨"max-steps", .number,
    "Stop a run after this many instructions (0 = no limit, default from lispkit.toml) " ++
      "(default -1)"⟩,
   ⟨"trace", .toggle, "Print the registers before every instruction"⟩,
   ⟨"v", .counter, "Verbose logging; repeat for more"⟩,
   ⟨"width", .number, "Output line width (default from lispkit.toml, else 60)"⟩]

def usage : String :=
  "Usage: lispkit [options] [program [arguments]]\n\n" ++
  "Compiles a LispKit program with the bootstrap compiler, then runs it on an\n" ++
  "argument list. Program and arguments are read interactively when no files are given.\n\n" ++
  "Options:\n" ++
  String.join (entries.map OptionEntry.summary) ++
  "\nExamples:\n" ++
  "  lispkit fac.lsp fac.args            # Compile and run\n" ++
  "  lispkit -S fac.secd fac.args        # Run compiled bytecode\n" ++
  "  lispkit -S -asm -disasm prog.asm    # Assemble, list and run\n" ++
  "  lispkit -compiler APENDIX2 -trace   # Interactive, with register trace\n"

structure Request where
  skipCompile : Bool
  assemble : Bool
  listing : Bool
  trace : Bool
  compiler : String
  config : String
  maxSteps : Int
  width : Int
  files : List String
  deriving DecidableEq, Repr

def request (arguments : List String) : Except OptionProblem Request :=
  let parsed := ParsedOptions.parse entries arguments
  match parsed.problem with
  | some problem => .error problem
  | none =>
      .ok {
        skipCompile := parsed.toggled "S"
        assemble := parsed.toggled "asm"
        listing := parsed.toggled "disasm"
        trace := parsed.toggled "trace"
        compiler := parsed.text "compiler"
        config := parsed.text "config"
        maxSteps := parsed.number "max-steps" (-1)
        width := parsed.number "width" 0
        files := parsed.rest }

/-- The settings that hold under a request: a positive width, a step limit that is not negative, and
a wish for a trace win over those of the file. -/
def Request.override (request : Request) (settings : Settings) : Settings :=
  { settings with
    width := if request.width > 0 then request.width else settings.width
    maxSteps := if request.maxSteps ≥ 0 then request.maxSteps else settings.maxSteps
    trace := request.trace || settings.trace }

def Request.compilerPath (request : Request) (settings : Settings) : String :=
  if request.compiler.isEmpty then settings.compilerPath else request.compiler

structure Inputs where
  reader : Reader
  source : LineSource
  arguments : ArgumentInput
  console : Option Console
  deriving DecidableEq, Repr

def interactive (surroundings : Surroundings) (settings : Settings) :
    LineSource × Option Console :=
  match surroundings.input with
  | .stream content => (.ofStream content .show {}, none)
  | .terminal typed =>
      let console := Console.start surroundings.tree settings.history typed
      (console.source, some console)

/-- Opens program and arguments. What is not in a file is read from standard input, each by a reader
of its own, so that the empty line that ends a program does not end the arguments too. -/
def openInputs (surroundings : Surroundings) (settings : Settings) :
    List String → Except CommandError Inputs
  | [] =>
      let reader : Reader := { prompt := settings.prompt }
      let (source, console) := interactive surroundings settings
      .ok ⟨reader, source, .sameSource reader, console⟩
  | [program] => do
      let source ← (ProgramFile.source surroundings.tree program).mapError .file
      let (typed, console) := interactive surroundings settings
      return ⟨{}, source, .separate { prompt := settings.prompt } typed, console⟩
  | [program, arguments] => do
      let source ← (ProgramFile.source surroundings.tree program).mapError .file
      let arguments ← (ProgramFile.source surroundings.tree arguments).mapError .file
      return ⟨{}, source, .separate {} arguments, none⟩
  | files => .error (.tooManyFiles files.length)

structure Session where
  pipeline : Pipeline
  state : Pipeline.State
  console : Option Console

def prepare (surroundings : Surroundings) (request : Request) : Except CommandError Session := do
  let settings ← (SettingsFile.choose surroundings.tree request.config).mapError .settings
  let settings := request.override settings
  let (compiler, store) ←
    if request.skipCompile then pure (none, {})
    else do
      let path := request.compilerPath settings
      let datum ← (ProgramFile.read surroundings.tree path).mapError .file
      let (compiler, store) := ({} : Store).load datum
      pure (some compiler, store)
  let inputs ← openInputs surroundings settings request.files
  return {
    pipeline := {
      compiler := compiler
      skipCompile := request.skipCompile
      assemble := request.assemble
      limit := settings.maxSteps
      fuel := surroundings.fuel }
    state := {
      store := store
      reader := inputs.reader
      source := inputs.source
      arguments := inputs.arguments
      out := { width := settings.width, blankNil := settings.blankNil }
      listing := if request.listing then some {} else none
      trace := if settings.trace then some {} else none
      supervisor := {} }
    console := inputs.console }

def consoleSource (state : Pipeline.State) : LineSource :=
  match state.arguments with
  | .separate _ source => source
  | _ => state.source

def report (store : Store) (runName : String) (error : PipelineError) : String :=
  let line := "Error: " ++ error.message store runName ++ "\n"
  match error with
  | .machine _ (.fault fault) => line ++ (fault.registers.print store {}).2.text
  | _ => line

def streamOf (console : Option Console) : Channel → OutputStream
  | .prompt => if console.isSome then .standard else .error
  | _ => .standard

def execute (surroundings : Surroundings) (session : Session) : Outcome :=
  match session.pipeline.run session.state with
  | (outcome, state) =>
      let written := state.transcript.toList.map fun (channel, text) =>
        (streamOf session.console channel, text)
      let saved := session.console.bind fun console => console.saved? (consoleSource state)
      match outcome with
      | .ok _ => ⟨0, written, saved⟩
      | .error error =>
          ⟨1, written ++ [(.error, report state.store surroundings.runName error)], saved⟩

def run (surroundings : Surroundings) (arguments : List String) : Outcome :=
  match request arguments with
  | .error .help => ⟨0, [(.error, usage)], none⟩
  | .error problem => ⟨2, [(.error, problem.message ++ usage)], none⟩
  | .ok request =>
      match prepare surroundings request with
      | .error error => ⟨1, [(.error, "Error: " ++ error.message ++ "\n")], none⟩
      | .ok session => execute surroundings session

end Command

end SecdMachine
