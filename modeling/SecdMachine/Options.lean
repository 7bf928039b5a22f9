import SecdMachine.Numeral
import SecdMachine.Text.Characters

/-!
Options on the command line. An option starts with one or two dashes; the first argument that does
not, or two dashes alone, ends the options, and what follows are files.
-/

namespace SecdMachine

/-- What an option takes: nothing or a truth value, of which the last counts; the same, of which the
true ones are counted; a text; a number. -/
inductive OptionKind where
  | toggle
  | counter
  | text
  | number
  deriving DecidableEq, Repr

inductive OptionValue where
  | boolean (value : Bool)
  | text (text : String)
  | number (number : Int64)
  deriving DecidableEq, Repr

inductive OptionProblem where
  | badSyntax (argument : String)
  | undefined (name : String)
  | noArgument (name : String)
  | badBoolean (kind : OptionKind) (name value : String)
  | badNumber (name value : String) (problem : LiteralProblem)
  | help
  deriving DecidableEq, Repr

namespace OptionProblem

def message : OptionProblem → String
  | badSyntax argument => "bad flag syntax: " ++ argument ++ "\n"
  | undefined name => "flag provided but not defined: -" ++ name ++ "\n"
  | noArgument name => "flag needs an argument: -" ++ name ++ "\n"
  | badBoolean kind name value =>
      let reason :=
        if kind = .counter then
          "strconv.ParseBool: parsing " ++ Text.quoted value ++ ": invalid syntax"
        else "parse error"
      "invalid boolean value " ++ Text.quoted value ++ " for -" ++ name ++ ": " ++ reason ++ "\n"
  | badNumber name value problem =>
      let reason := if problem = .malformed then "parse error" else "value out of range"
      "invalid value " ++ Text.quoted value ++ " for flag -" ++ name ++ ": " ++ reason ++ "\n"
  | help => ""

end OptionProblem

structure OptionEntry where
  name : String
  kind : OptionKind
  description : String
  deriving DecidableEq, Repr

namespace OptionEntry

def summary (entry : OptionEntry) : String :=
  let head := "  -" ++ entry.name ++
    match entry.kind with
    | .text => " string"
    | .number => " int"
    | _ => ""
  let gap := if head.utf8ByteSize ≤ 4 then "\t" else "\n    \t"
  head ++ gap ++ entry.description ++ "\n"

end OptionEntry

structure ParsedOptions where
  given : List (String × OptionValue)
  rest : List String
  problem : Option OptionProblem
  deriving DecidableEq, Repr

namespace ParsedOptions

def boolean? (word : String) : Option Bool :=
  if ["1", "t", "T", "true", "TRUE", "True"].contains word then some true
  else if ["0", "f", "F", "false", "FALSE", "False"].contains word then some false
  else none

def dashed? (argument : String) : Option String :=
  match argument.toList with
  | '-' :: '-' :: name => some (String.ofList name)
  | '-' :: char :: name => some (String.ofList (char :: name))
  | _ => none

def isName (text : String) : Bool :=
  match text.toList with
  | [] => false
  | char :: _ => char ≠ '-' && char ≠ '='

def nameAndValue (text : String) : String × Option String :=
  let name := text.toList.takeWhile (· ≠ '=')
  match text.toList.drop name.length with
  | [] => (text, none)
  | _ :: value => (String.ofList name, some (String.ofList value))

def booleanValue (kind : OptionKind) (name : String) (value : Option String) :
    Except OptionProblem OptionValue :=
  let word := value.getD "true"
  match boolean? word with
  | some value => .ok (.boolean value)
  | none => .error (.badBoolean kind name word)

def argumentValue (kind : OptionKind) (name argument : String) :
    Except OptionProblem OptionValue :=
  match kind with
  | .number =>
      match Numeral.integer argument.toList with
      | .ok number => .ok (.number number)
      | .error problem => .error (.badNumber name argument problem)
  | _ => .ok (.text argument)

def failed (rest : List String) (problem : OptionProblem) : ParsedOptions :=
  ⟨[], rest, some problem⟩

def prepend (name : String) (value : Except OptionProblem OptionValue) (rest : List String)
    (later : ParsedOptions) : ParsedOptions :=
  match value with
  | .ok value => { later with given := (name, value) :: later.given }
  | .error problem => failed rest problem

def parse (entries : List OptionEntry) : List String → ParsedOptions
  | [] => ⟨[], [], none⟩
  | argument :: rest =>
      match dashed? argument with
      | none => ⟨[], argument :: rest, none⟩
      | some text =>
          if argument = "--" then ⟨[], rest, none⟩
          else if !isName text then failed (argument :: rest) (.badSyntax argument)
          else
            match nameAndValue text with
            | (name, value) =>
                match entries.find? fun entry => entry.name = name with
                | none =>
                    failed rest (if name = "help" || name = "h" then .help else .undefined name)
                | some entry =>
                    if entry.kind = .toggle || entry.kind = .counter then
                      .prepend name (booleanValue entry.kind name value) rest (parse entries rest)
                    else
                      match value, rest with
                      | some value, rest =>
                          .prepend name (argumentValue entry.kind name value) rest
                            (parse entries rest)
                      | none, value :: rest =>
                          .prepend name (argumentValue entry.kind name value) rest
                            (parse entries rest)
                      | none, [] => failed [] (.noArgument name)

def count (parsed : ParsedOptions) (name : String) : Nat :=
  parsed.given.countP fun option => option = (name, .boolean true)

def toggled (parsed : ParsedOptions) (name : String) : Bool :=
  match (parsed.given.reverse.lookup name) with
  | some (.boolean value) => value
  | _ => false

def text (parsed : ParsedOptions) (name : String) : String :=
  match parsed.given.reverse.lookup name with
  | some (.text text) => text
  | _ => ""

def number (parsed : ParsedOptions) (name : String) (fallback : Int) : Int :=
  match parsed.given.reverse.lookup name with
  | some (.number number) => number.toInt
  | _ => fallback

end ParsedOptions

end SecdMachine
