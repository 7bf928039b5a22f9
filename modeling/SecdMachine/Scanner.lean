import SecdMachine.Reader
import SecdMachine.Store

/-!
The reader as it goes along. It holds one line, with a blank at the end that the source does not
have, and moves through it character by character; the next line is asked for when the last
character has been passed. Lists are built in a store when their end is reached.
-/

namespace SecdMachine

structure Scanner where
  prompt : String := defaultPrompt
  source : LineSource
  line : List Char := []
  position : Nat := 0
  char : Option Char := some ' '
  done : Bool := false
  lookahead : Option Token := none
  failure : Option SourceError := none
  primed : Bool := false
  deriving DecidableEq, Repr

namespace Scanner

def remaining (scanner : Scanner) : Nat :=
  (scanner.line.length - scanner.position) +
    scanner.source.pending.foldr (fun delivery rest => delivery.line.length + 2 + rest) 0 +
    (if scanner.done then 0 else 1) + (if scanner.char.isSome then 1 else 0)

/-- Moves to the next character. A line that is empty ends the input as the end of the source
does. -/
def readChar (scanner : Scanner) : Scanner :=
  if scanner.done then { scanner with char := none }
  else if scanner.line.length ≤ scanner.position then
    match scanner.source.next scanner.prompt with
    | (delivery, source) =>
        match delivery.ending? with
        | some (some error) =>
            { scanner with source := source, failure := some error, done := true, char := none }
        | some none => { scanner with source := source, done := true, char := none }
        | none =>
            let text := delivery.line ++ [' ']
            { scanner with source := source, line := text, position := 1, char := text[0]? }
  else { scanner with char := scanner.line[scanner.position]?, position := scanner.position + 1 }

theorem remaining_readChar_lt {scanner : Scanner} {char : Char} (here : scanner.char = some char) :
    scanner.readChar.remaining < scanner.remaining := by
  obtain ⟨prompt, ⟨pending, policy, prompts⟩, text, position, current, done, _, _, _⟩ := scanner
  simp only at here
  subst here
  unfold readChar
  split
  next spent => simp [remaining]
  next going =>
    split
    next used =>
      simp only at going used
      simp only [LineSource.next]
      obtain ⟨refusal, shown⟩ := LineSource.prompted policy prompts prompt
      cases refusal with
      | some error =>
          simp only [remaining, Delivery.ending?, going, Option.isSome_some, Option.isSome_none,
            if_true, Bool.false_eq_true, if_false]
          omega
      | none =>
          cases pending with
          | nil =>
              simp only [remaining, Delivery.ending?, going, Option.isSome_some,
                Option.isSome_none, if_true, Bool.false_eq_true, if_false]
              omega
          | cons delivery rest =>
              simp only [remaining, List.foldr_cons]
              rcases delivery.ending? with _ | _ | error
              · simp
                omega
              · simp [going]
                omega
              · simp [going]
                omega
    next unused =>
      simp only [remaining]
      have one : (if (text[position]?).isSome then 1 else 0) ≤ 1 := by split <;> simp
      simp only [Option.isSome_some, if_true]
      simp only at unused
      omega

def collect (kind : Char → Bool) (scanner : Scanner) : List Char × Scanner :=
  match _ : scanner.char with
  | none => ([], scanner)
  | some char =>
      if kind char then
        match collect kind scanner.readChar with
        | (more, scanner) => (char :: more, scanner)
      else ([], scanner)
termination_by scanner.remaining
decreasing_by exact remaining_readChar_lt ‹_›

def nextToken (scanner : Scanner) : Option Token × Scanner :=
  let scanner := (scanner.collect Text.isBlank).2
  match scanner.char with
  | none => (none, scanner)
  | some char =>
      if Token.startsNumber char then
        match scanner.readChar.collect Text.isDigit with
        | (digits, scanner) => (some (.numeric (char :: digits)), scanner)
      else if Text.isLetter char then
        match scanner.readChar.collect Token.continuesWord with
        | (more, scanner) => (some (.word (char :: more)), scanner)
      else (some (.delimiter char), scanner.readChar)

def scan (scanner : Scanner) : Scanner :=
  match scanner.nextToken with
  | (token, scanner) => { scanner with lookahead := token }

def literal (scanner : Scanner) : String :=
  match scanner.lookahead with
  | some token => token.literal
  | none => ")"

structure Parsed where
  outcome : Except ReadError Value
  scanner : Scanner
  store : Store

def Parsed.join (parsed : Parsed) (items : List Value) (tail : Value) : Parsed :=
  match parsed.store.consReversed items tail with
  | (value, store) => { parsed with outcome := .ok value, store := store }

mutual

/-- An expression from the lookahead on. There is no result if `fuel` does not suffice. -/
def exp (fuel : Nat) (scanner : Scanner) (store : Store) : Option Parsed :=
  match fuel with
  | 0 => none
  | fuel + 1 =>
      let symbol := some ⟨.ok (.symbol scanner.literal), scanner.scan, store⟩
      if scanner.literal = "(" then
        let inside := scanner.scan
        if inside.literal = ")" then some ⟨.ok .nil, inside.scan, store⟩
        else do
          let parsed ← list fuel inside store []
          match parsed.outcome with
          | .error _ => return parsed
          | .ok _ => return { parsed with scanner := parsed.scanner.scan }
      else
        match scanner.lookahead with
        | some (.numeric text) =>
            if text = ['-'] then symbol
            else
              match Literal.integer text with
              | .error problem =>
                  some ⟨.error (.literal ⟨String.ofList text, problem⟩), scanner, store⟩
              | .ok number => some ⟨.ok (.integer number), scanner.scan, store⟩
        | _ => symbol

/-- The elements of a list after those already read, the last of which stands first. The token that
ends the list is not passed. -/
def list (fuel : Nat) (scanner : Scanner) (store : Store) (items : List Value) : Option Parsed :=
  match fuel with
  | 0 => none
  | fuel + 1 => do
      let element ← exp fuel scanner store
      match element.outcome with
      | .error _ => return element
      | .ok value =>
          if element.scanner.literal = "." then
            let ending ← exp fuel element.scanner.scan element.store
            match ending.outcome with
            | .error _ => return ending
            | .ok tail => return ending.join (value :: items) tail
          else if element.scanner.literal = ")" then return element.join (value :: items) .nil
          else list fuel element.scanner element.store (value :: items)

end

def prime (scanner : Scanner) : Scanner :=
  if scanner.primed then scanner else ({ scanner with primed := true } : Scanner).readChar.scan

def getExp (fuel : Nat) (scanner : Scanner) (store : Store) : Option Parsed :=
  let scanner := scanner.prime
  match scanner.lookahead, scanner.failure with
  | none, some failure => some ⟨.error (.source failure), scanner, store⟩
  | none, none => some ⟨.error .endOfInput, scanner, store⟩
  | some _, _ => do
      let parsed ← exp fuel scanner store
      match parsed.outcome, parsed.scanner.failure with
      | .ok _, some failure => return { parsed with outcome := .error (.source failure) }
      | _, _ => return parsed

end Scanner

end SecdMachine
