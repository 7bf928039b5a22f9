import SecdMachine.LineSource
import SecdMachine.Progress

/-!
Reading expressions from a line source. A reader asks for a line only when it needs a token that no
earlier line holds, and it always knows the token after the last expression. An empty line, or the
end of the source, ends its input.
-/

namespace SecdMachine

inductive ReadError where
  | endOfInput
  | literal (error : LiteralError)
  | source (error : SourceError)
  deriving DecidableEq, Repr

namespace ReadError

def message : ReadError → String
  | endOfInput => "EOF"
  | literal error => error.message
  | source error => "sexp: read line: " ++ error.message

end ReadError

inductive Stage where
  | unread
  | reading
  | ended (failure : Option SourceError)
  deriving DecidableEq, Repr

def defaultPrompt : String := "> "

/-- The tokens of the current line that are not yet part of an expression, the lookahead first. -/
structure Reader where
  prompt : String := defaultPrompt
  tokens : List Token := []
  stage : Stage := .unread
  deriving DecidableEq, Repr

namespace Reader

def lookaheadClass (reader : Reader) : String :=
  match reader.tokens with
  | token :: _ => token.className
  | [] => Token.classNameOf 0

def lookaheadLiteral (reader : Reader) : String :=
  match reader.tokens, reader.stage with
  | token :: _, _ => token.literal
  | [], .unread => ""
  | [], _ => ")"

def lookaheadText (reader : Reader) : String :=
  reader.lookaheadClass ++ "(" ++ Text.quoted reader.lookaheadLiteral ++ ")"

inductive Refill where
  | tokens (tokens : List Token)
  | ended (failure : Option SourceError)
  deriving DecidableEq, Repr

def refill (prompt : String) (policy : PromptPolicy) (prompts : Sink) (pending : List Delivery) :
    Refill × LineSource :=
  match LineSource.prompted policy prompts prompt with
  | (some error, prompts) => (.ended (some error), ⟨pending, policy, prompts⟩)
  | (none, prompts) =>
      match pending with
      | [] => (.ended none, ⟨[], policy, prompts⟩)
      | delivery :: rest =>
          match delivery.ending? with
          | some failure => (.ended failure, ⟨rest, policy, prompts⟩)
          | none =>
              match SecdMachine.tokens delivery.line with
              | [] => refill prompt policy prompts rest
              | found => (.tokens found, ⟨rest, policy, prompts⟩)

def advance (reader : Reader) (source : LineSource) : Reader × LineSource :=
  match reader.tokens, reader.stage with
  | [], .ended _ => (reader, source)
  | [], _ =>
      match refill reader.prompt source.policy source.prompts source.pending with
      | (.tokens found, source) => ({ reader with tokens := found, stage := .reading }, source)
      | (.ended failure, source) => ({ reader with stage := .ended failure }, source)
  | _ :: _, _ => (reader, source)

structure Reading where
  outcome : Except ReadError Datum
  reader : Reader
  source : LineSource

/-- Ends a read: a source that failed before the lookahead was known hides the expression. -/
def settle (reader : Reader) (source : LineSource) (datum : Datum) : Reading :=
  match reader.stage with
  | .ended (some failure) => ⟨.error (.source failure), reader, source⟩
  | _ => ⟨.ok datum, reader, source⟩

def settleAtEnd (prompt : String) (failure : Option SourceError) (source : LineSource)
    (progress : Progress) : Reading :=
  settle { prompt := prompt, stage := .ended failure } source progress.atEnd

def continueRead (prompt : String) (policy : PromptPolicy) (progress : Progress)
    (found : List Token) (prompts : Sink) (pending : List Delivery) : Reading :=
  match progress.feed found with
  | .failed error rest =>
      ⟨.error (.literal error), ⟨prompt, rest, .reading⟩, ⟨pending, policy, prompts⟩⟩
  | .complete datum rest =>
      match advance ⟨prompt, rest, .reading⟩ ⟨pending, policy, prompts⟩ with
      | (reader, source) => settle reader source datum
  | .partway progress =>
      match LineSource.prompted policy prompts prompt with
      | (some error, prompts) =>
          settleAtEnd prompt (some error) ⟨pending, policy, prompts⟩ progress
      | (none, prompts) =>
          match pending with
          | [] => settleAtEnd prompt none ⟨[], policy, prompts⟩ progress
          | delivery :: rest =>
              match delivery.ending? with
              | some failure => settleAtEnd prompt failure ⟨rest, policy, prompts⟩ progress
              | none =>
                  continueRead prompt policy progress (SecdMachine.tokens delivery.line) prompts rest

def read (reader : Reader) (source : LineSource) : Reading :=
  match advance reader source with
  | (reader, source) =>
      match reader.tokens, reader.stage with
      | [], .ended (some failure) => ⟨.error (.source failure), reader, source⟩
      | [], _ => ⟨.error .endOfInput, reader, source⟩
      | found, _ =>
          continueRead reader.prompt source.policy Progress.start found source.prompts source.pending

end Reader

def readText (text : List Char) : Except ReadError Datum :=
  (Reader.read {} (LineSource.ofText text)).outcome

end SecdMachine
