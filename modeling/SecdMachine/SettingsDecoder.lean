import SecdMachine.Settings
import SecdMachine.Toml.Document

/-!
The decoder of settings documents. A section and a name stand for a setting whatever the case of
their letters; a key is defined only under its own letters.
-/

namespace SecdMachine

namespace Settings

/-- A letter without its case. Two letters outside ASCII count as forms of s and k. -/
def foldChar (char : Char) : Char :=
  if char = Char.ofNat 0x17F then 's'
  else if char = Char.ofNat 0x212A then 'k'
  else char.toLower

def isNamed (name lower : String) : Bool :=
  name.toList.map foldChar = lower.toList

def isSection (name : String) : Bool :=
  Field.all.any fun field => isNamed name field.sectionName

def field? (sectionName name : String) : Option Field :=
  Field.all.find? fun field => isNamed sectionName field.sectionName && isNamed name field.name

def store? (settings : Settings) : Field → Toml.Node → Option Settings
  | .compiler, .string text => some { settings with compiler := text }
  | .width, .integer number => some { settings with width := number.toInt }
  | .blankNil, .boolean value => some { settings with blankNil := value }
  | .prompt, .string text => some { settings with prompt := text }
  | .history, .string text => some { settings with history := text }
  | .trace, .boolean value => some { settings with trace := value }
  | .maxSteps, .integer number => some { settings with maxSteps := number.toInt }
  | .verbosity, .integer number => some { settings with verbosity := number.toInt }
  | .logFile, .string text => some { settings with logFile := text }
  | _, _ => none

def storeSection? (sectionName : String) (settings : Settings) (entries : Toml.Entries) :
    Option Settings :=
  entries.foldlM (fun settings entry =>
    match field? sectionName entry.1 with
    | some field => settings.store? field entry.2
    | none => some settings) settings

def decode? (document : Toml.Document) : Option Settings :=
  document.entries.foldlM (fun settings entry =>
    if isSection entry.1 then
      match entry.2 with
      | .table entries => storeSection? entry.1 settings entries
      | _ => none
    else some settings) {}

def isKnown (document : Toml.Document) (key : Toml.Key) : Bool :=
  (document.find? key).isSome &&
    match key with
    | [sectionName] => isSection sectionName
    | [sectionName, name] => (field? sectionName name).isSome
    | _ => false

def decoder : Decoder := fun content => do
  let document ← Toml.Document.parse? content
  let settings ← decode? document
  return {
    settings := settings
    undecoded := document.named.toList.filter fun key => !isKnown document key
    isDefined := fun key => (document.find? key).isSome }

end Settings

end SecdMachine
