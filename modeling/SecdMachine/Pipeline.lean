import SecdMachine.Assembler
import SecdMachine.Listing
import SecdMachine.Machine
import SecdMachine.Reader

/-!
From program text to result: read the program, compile it with a compiler that runs on the machine,
assemble and list the code, read the arguments, run. Each stage prints what it produced before the
next one begins, so the output shows how far a failed run came.
-/

namespace SecdMachine

inductive PipelineError where
  | missing (what : String)
  | unreadable (what : String) (error : ReadError)
  | noCompiler
  | assembly (error : AssemblyError)
  | machine (stage : String) (error : MachineError)
  | refused {problem : String}
  deriving DecidableEq, Repr

namespace PipelineError

def message (store : Store) (run : String) : PipelineError → String
  | missing what => "pipeline: no " ++ what ++ ": " ++ ReadError.endOfInput.message
  | unreadable what error => "pipeline: reading " ++ what ++ ": " ++ error.message
  | noCompiler => "pipeline: no bootstrap compiler loaded"
  | assembly error => "pipeline: " ++ error.message store
  | machine stage error => "pipeline: " ++ stage ++ ": " ++ error.message store run
  | @refused problem => problem

end PipelineError

inductive Channel where
  | out
  | listing
  | trace
  | prompt
  deriving DecidableEq, Repr

/-- Where arguments are read from: by the reader of the program, by another one over its source, or
from a source of their own. -/
inductive ArgumentInput where
  | sameReader
  | sameSource (reader : Reader)
  | separate (reader : Reader) (source : LineSource)
  deriving DecidableEq, Repr

structure Pipeline where
  compiler : Option Value := none
  skipCompile : Bool := false
  assemble : Bool := false
  limit : Int := 0
  fuel : Nat
  deriving DecidableEq, Repr

namespace Pipeline

structure State where
  store : Store
  reader : Reader
  source : LineSource
  arguments : ArgumentInput
  out : Writer
  listing : Option Sink
  trace : Option Sink
  supervisor : Supervisor
  transcript : Array (Channel × String) := #[]

abbrev Stage := ExceptT PipelineError (StateM State)

def transcribe (channel : Channel) (before : Nat) (sink : Sink)
    (transcript : Array (Channel × String)) : Array (Channel × String) :=
  (sink.written.toList.drop before).foldl
    (fun transcript text => transcript.push (channel, text)) transcript

def print (value : Value) : Stage Unit := do
  let state ← get
  let before := state.out.sink.written.size
  let out := state.out.putLine state.store value
  set { state with
    out := out
    transcript := transcribe .out before out.sink state.transcript }
  match out.failure with
  | none => return
  | some problem => throw (@PipelineError.refused problem)

def accept (what : String) (before : LineSource) (reading : Reader.Reading) : Stage Value := do
  modify fun state => { state with
    transcript := transcribe .prompt before.prompts.written.size reading.source.prompts
      state.transcript }
  match reading.outcome with
  | .ok datum =>
      let state ← get
      match state.store.load datum with
      | (value, store) =>
          set { state with store := store }
          return value
  | .error .endOfInput => throw (.missing what)
  | .error error => throw (.unreadable what error)

def readProgram : Stage Value := do
  let state ← get
  let reading := state.reader.read state.source
  set { state with reader := reading.reader, source := reading.source }
  accept "program" state.source reading

def readArguments : Stage Value := do
  let state ← get
  match state.arguments with
  | .sameReader =>
      let reading := state.reader.read state.source
      set { state with reader := reading.reader, source := reading.source }
      accept "arguments" state.source reading
  | .sameSource reader =>
      let reading := reader.read state.source
      set { state with arguments := .sameSource reading.reader, source := reading.source }
      accept "arguments" state.source reading
  | .separate reader source =>
      let reading := reader.read source
      set { state with arguments := .separate reading.reader reading.source }
      accept "arguments" source reading

def execute (pipeline : Pipeline) (stage : String) (code arguments : Value) : Stage Value := do
  let state ← get
  let before := (state.trace.map fun sink => sink.written.size).getD 0
  match Machine.load state.store code arguments with
  | (machine, store) =>
      let machine := { machine with trace := state.trace, limit := pipeline.limit }
      let ending := machine.run pipeline.fuel state.supervisor store
      set { state with
        store := ending.store
        trace := ending.machine.trace
        supervisor := ending.supervisor
        transcript :=
          match ending.machine.trace with
          | some sink => transcribe .trace before sink state.transcript
          | none => state.transcript }
      match ending.outcome with
      | .ok value => return value
      | .error error => throw (.machine stage error)

def compileProgram (pipeline : Pipeline) (program : Value) : Stage Value := do
  if pipeline.skipCompile then return program
  match pipeline.compiler with
  | none => throw .noCompiler
  | some compiler =>
      let state ← get
      match state.store.list [program] with
      | (arguments, store) =>
          set { state with store := store }
          pipeline.execute "compile" compiler arguments

def assembleCode (pipeline : Pipeline) (code : Value) : Stage Value := do
  if !pipeline.assemble then return code
  let state ← get
  match Assembler.assemble state.store code with
  | .error error => throw (.assembly error)
  | .ok (code, store) =>
      set { state with store := store }
      return code

def list (code : Value) : Stage Unit := do
  let state ← get
  match state.listing with
  | none => return
  | some sink =>
      let text := Listing.text state.store code "program"
      match sink.write text with
      | (none, sink) =>
          set { state with
            listing := some sink
            transcript := state.transcript.push (.listing, text) }
      | (some problem, _) => throw (@PipelineError.refused problem)

/-- Turns a program into the code to run, prints that code if it is not the program itself, and
lists it. -/
def compile (pipeline : Pipeline) (program : Value) : Stage Value := do
  let code ← pipeline.compileProgram program
  let code ← pipeline.assembleCode code
  if !pipeline.skipCompile || pipeline.assemble then print code
  list code
  return code

def stages (pipeline : Pipeline) : Stage Value := do
  let program ← readProgram
  print program
  let code ← pipeline.compile program
  let arguments ← readArguments
  print arguments
  let result ← pipeline.execute "run" code arguments
  print result
  return result

def run (pipeline : Pipeline) (state : State) : Except PipelineError Value × State :=
  (stages pipeline).run.run state

end Pipeline

end SecdMachine
