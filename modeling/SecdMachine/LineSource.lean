import SecdMachine.Sink
import SecdMachine.Text.Characters
import SecdMachine.Text.Utf8

/-!
Where input lines come from. A source is the lines it has still to deliver, possibly with an
interruption among them, and what it does with the prompt that precedes each line.
-/

namespace SecdMachine

inductive SourceError where
  | promptRefused {problem : String}
  | promptInvalid
  | broken (reason : String)
  deriving DecidableEq, Repr

namespace SourceError

def message : SourceError → String
  | @promptRefused problem => problem
  | promptInvalid => "invalid prompt"
  | broken reason => reason

end SourceError

inductive Interruption where
  | closed
  | failed (error : SourceError)
  deriving DecidableEq, Repr

structure Delivery where
  line : List Char := []
  interruption : Option Interruption := none
  deriving DecidableEq, Repr

namespace Delivery

/-- Whether an answer ends the input of the reader that asked, and with which failure. An empty line
ends it as the end of the source does. -/
def ending? (delivery : Delivery) : Option (Option SourceError) :=
  match delivery.interruption with
  | some (.failed error) => some (some error)
  | some .closed => some none
  | none => if delivery.line.isEmpty then some none else none

end Delivery

/-- What a source does with prompts: nothing, write them unless empty, note each one, or write them
after turning away those with control characters. -/
inductive PromptPolicy where
  | ignore
  | show
  | record
  | check
  deriving DecidableEq, Repr

structure LineSource where
  pending : List Delivery := []
  policy : PromptPolicy := .ignore
  prompts : Sink := {}
  deriving DecidableEq, Repr

namespace LineSource

def ofText (text : List Char) : LineSource where
  pending := if text.isEmpty then [] else [{ line := text }]

def splitLines (current : Text.Bytes) : Text.Bytes → List Text.Bytes
  | [] => if current.isEmpty then [] else [current.reverse]
  | byte :: rest =>
      if byte = 0x0A then current.reverse :: splitLines [] rest
      else splitLines (byte :: current) rest

def withoutReturns (line : Text.Bytes) : Text.Bytes :=
  (line.reverse.dropWhile (· = 0x0D)).reverse

def ofStream (bytes : Text.Bytes) (policy : PromptPolicy) (prompts : Sink) : LineSource where
  pending := (splitLines [] bytes).map fun line => { line := Text.decode (withoutReturns line) }
  policy := policy
  prompts := prompts

def prompted (policy : PromptPolicy) (prompts : Sink) (prompt : String) :
    Option SourceError × Sink :=
  match policy with
  | .ignore => (none, prompts)
  | .record => (none, { prompts with written := prompts.written.push prompt })
  | .show =>
      if prompt.isEmpty then (none, prompts)
      else
        match prompts.write prompt with
        | (none, prompts) => (none, prompts)
        | (some problem, prompts) => (some (@SourceError.promptRefused problem), prompts)
  | .check =>
      if prompt.toList.any Text.isOther then (some .promptInvalid, prompts)
      else
        match prompts.write prompt with
        | (none, prompts) => (none, prompts)
        | (some problem, prompts) => (some (@SourceError.promptRefused problem), prompts)

def next (source : LineSource) (prompt : String) : Delivery × LineSource :=
  match prompted source.policy source.prompts prompt with
  | (some error, prompts) =>
      ({ interruption := some (.failed error) }, { source with prompts := prompts })
  | (none, prompts) =>
      match source.pending with
      | [] => ({ interruption := some .closed }, { source with prompts := prompts })
      | delivery :: rest => (delivery, { source with pending := rest, prompts := prompts })

end LineSource

end SecdMachine
