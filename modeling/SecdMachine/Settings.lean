import SecdMachine.PathName
import SecdMachine.Reader
import SecdMachine.Toml.Scalar
import SecdMachine.Writer

/-!
The settings of the command. Each setting has a section and a name there, and a value that takes its
place if a document does not give it. What a document gives is for a decoder to say.
-/

namespace SecdMachine

structure Settings where
  compiler : String := ""
  width : Int := 0
  blankNil : Bool := false
  prompt : String := ""
  history : String := ""
  trace : Bool := false
  maxSteps : Int := 0
  verbosity : Int := 0
  logFile : String := ""
  directory : String := ""
  deriving DecidableEq, Repr

namespace Settings

inductive Field where
  | compiler
  | width
  | blankNil
  | prompt
  | history
  | trace
  | maxSteps
  | verbosity
  | logFile
  deriving DecidableEq, Repr

namespace Field

def all : List Field :=
  [compiler, width, blankNil, prompt, history, trace, maxSteps, verbosity, logFile]

def sectionName : Field → String
  | compiler => "bootstrap"
  | width => "writer"
  | blankNil => "writer"
  | prompt => "reader"
  | history => "reader"
  | trace => "machine"
  | maxSteps => "machine"
  | verbosity => "log"
  | logFile => "log"

def name : Field → String
  | compiler => "compiler"
  | width => "width"
  | blankNil => "blank-nil"
  | prompt => "prompt"
  | history => "history"
  | trace => "trace"
  | maxSteps => "max-steps"
  | verbosity => "verbosity"
  | logFile => "file"

def key (field : Field) : Toml.Key :=
  [field.sectionName, field.name]

end Field

structure Decoded where
  settings : Settings
  undecoded : List Toml.Key
  isDefined : Toml.Key → Bool

/-- A decoder of documents. It has no result for a text that is no document, or that has a value of
the wrong kind for a setting. -/
abbrev Decoder := Text.Bytes → Option Decoded

def defaultCompiler : String := "compiler.secd"

def defaultHistory : String := "~/.lispkit_history"

/-- Fills in the settings that are missing. An empty compiler and a width of zero count as missing,
the others unless their key is defined. -/
def withDefaults (settings : Settings) (defined : Toml.Key → Bool) : Settings :=
  { settings with
    compiler := if settings.compiler.isEmpty then defaultCompiler else settings.compiler
    width := if settings.width = 0 then defaultWidth else settings.width
    blankNil := if defined Field.blankNil.key then settings.blankNil else true
    prompt := if defined Field.prompt.key then settings.prompt else defaultPrompt
    history := if defined Field.history.key then settings.history else defaultHistory }

def ofDirectory (directory : String) : Settings :=
  withDefaults { directory := directory } fun _ => false

def resolve (settings : Settings) (path : String) : String :=
  if PathName.isAbsolute path || settings.directory.isEmpty then path
  else PathName.join settings.directory path

def compilerPath (settings : Settings) : String :=
  settings.resolve settings.compiler

def logPath? (settings : Settings) : Option String :=
  if settings.logFile.isEmpty then none else some (settings.resolve settings.logFile)

end Settings

end SecdMachine
