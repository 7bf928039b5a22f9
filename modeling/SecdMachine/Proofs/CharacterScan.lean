import SecdMachine.Proofs.Answers
import SecdMachine.Proofs.Lexemes
import SecdMachine.Scanner

/-!
Moving through a line. The blank after a line belongs to no token, so the scanner finds the tokens of
the line, and it asks for the next line when a reader does: when a token is needed and the line has
none left.
-/

namespace SecdMachine

namespace Reader

variable {prompt : String} {source : LineSource}

theorem advance_of_ending {failure : Option SourceError}
    (ends : (source.next prompt).1.ending? = some failure) :
    advance ⟨prompt, [], .reading⟩ source =
      (⟨prompt, [], .ended failure⟩, (source.next prompt).2) := by
  simp only [advance]
  rw [refill_eq_next, ends]

theorem advance_of_arrival (arrives : (source.next prompt).1.ending? = none) :
    advance ⟨prompt, [], .reading⟩ source =
      advance ⟨prompt, SecdMachine.tokens (source.next prompt).1.line, .reading⟩
        (source.next prompt).2 := by
  conv => lhs; simp only [advance]
  rw [refill_eq_next, arrives]
  cases SecdMachine.tokens (source.next prompt).1.line with
  | nil => rfl
  | cons token more => rfl

theorem advance_cons (prompt : String) (token : Token) (rest : List Token) (stage : Stage)
    (source : LineSource) :
    advance ⟨prompt, token :: rest, stage⟩ source = (⟨prompt, token :: rest, stage⟩, source) := by
  cases stage <;> rfl

def pass (reader : Reader) (source : LineSource) : Reader × LineSource :=
  advance { reader with tokens := reader.tokens.tail } source

end Reader

namespace Scanner

structure Within (scanner : Scanner) (prompt : String) (source : LineSource) (text : List Char) :
    Prop where
  prompt : scanner.prompt = prompt
  source : scanner.source = source
  primed : scanner.primed = true
  going : scanner.done = false
  sound : scanner.failure = none
  char : scanner.char = (text ++ [' ']).head?
  rest : scanner.line.drop scanner.position = (text ++ [' ']).tail

structure Over (scanner : Scanner) (prompt : String) (source : LineSource)
    (failure : Option SourceError) : Prop where
  prompt : scanner.prompt = prompt
  source : scanner.source = source
  primed : scanner.primed = true
  done : scanner.done = true
  failure : scanner.failure = failure
  char : scanner.char = none

/-- The scanner stands where the reader stands: both know the same token, and the scanner has the
text of the reader's other tokens before it. -/
inductive Stands (scanner : Scanner) : Reader → LineSource → Prop
  | within {prompt : String} {source : LineSource} {text : List Char} {token : Token}
      (known : scanner.lookahead = some token) (formed : token.Formed)
      (within : scanner.Within prompt source text) :
      Stands scanner ⟨prompt, token :: tokens text, .reading⟩ source
  | spent {prompt : String} {source : LineSource} {failure : Option SourceError}
      (none : scanner.lookahead = none) (spent : scanner.Over prompt source failure) :
      Stands scanner ⟨prompt, [], .ended failure⟩ source

variable {scanner : Scanner} {prompt : String} {source : LineSource} {text rest taken : List Char}
  {kind : Char → Bool}

theorem Within.readChar_cons {char : Char} (within : scanner.Within prompt source (char :: text)) :
    scanner.readChar.Within prompt source text := by
  have more : scanner.line.drop scanner.position = text ++ [' '] := within.rest
  have inside : ¬scanner.line.length ≤ scanner.position := by
    intro used
    rw [List.drop_eq_nil_of_le used] at more
    simp at more
  have moves : scanner.readChar = { scanner with
      char := scanner.line[scanner.position]?, position := scanner.position + 1 } := by
    rw [readChar, within.going, if_neg (by simp), if_neg inside]
  rw [moves]
  refine ⟨within.prompt, within.source, within.primed, within.going, within.sound, ?_, ?_⟩
  · rw [← more, List.head?_drop]
  · rw [← more, List.tail_drop]

theorem Within.used (within : scanner.Within prompt source []) :
    scanner.line.length ≤ scanner.position :=
  List.drop_eq_nil_iff.mp within.rest

theorem Within.readChar_of_ending (within : scanner.Within prompt source [])
    {failure : Option SourceError} (ends : (source.next prompt).1.ending? = some failure) :
    scanner.readChar.Over prompt (source.next prompt).2 failure := by
  rw [readChar, within.going, if_neg (by simp), if_pos within.used, within.source, within.prompt]
  simp only [ends]
  cases failure with
  | none => exact ⟨rfl, rfl, within.primed, rfl, within.sound, rfl⟩
  | some error => exact ⟨rfl, rfl, within.primed, rfl, rfl, rfl⟩

theorem Within.readChar_of_arrival (within : scanner.Within prompt source [])
    (arrives : (source.next prompt).1.ending? = none) :
    scanner.readChar.Within prompt (source.next prompt).2 (source.next prompt).1.line := by
  rw [readChar, within.going, if_neg (by simp), if_pos within.used, within.source, within.prompt]
  simp only [arrives]
  exact ⟨rfl, rfl, within.primed, rfl, within.sound, List.head?_eq_getElem?.symm, List.drop_one⟩

theorem collect_of_kind {char : Char} (here : scanner.char = some char) (goesOn : kind char = true) :
    scanner.collect kind =
      (char :: (scanner.readChar.collect kind).1, (scanner.readChar.collect kind).2) := by
  rw [collect]
  split
  next none => simp [here] at none
  next other same =>
    obtain rfl := Option.some.inj (here.symm.trans same)
    rw [if_pos goesOn]

theorem collect_of_stop (stops : ∀ char ∈ scanner.char, kind char = false) :
    scanner.collect kind = ([], scanner) := by
  rw [collect]
  split
  next => rfl
  next char same =>
    rw [stops char same]
    rfl

theorem Within.collect (within : scanner.Within prompt source (taken ++ rest))
    (all : ∀ char ∈ taken, kind char = true) (stops : ∀ char ∈ rest.head?, kind char = false)
    (blankStops : kind ' ' = false) :
    ∃ after, scanner.collect kind = (taken, after) ∧ after.Within prompt source rest := by
  induction taken generalizing scanner with
  | nil =>
      refine ⟨scanner, collect_of_stop ?_, within⟩
      rw [within.char]
      cases rest with
      | nil => simpa using blankStops
      | cons char more => simpa using stops
  | cons char more ih =>
      obtain ⟨after, collected, there⟩ :=
        ih within.readChar_cons fun other member => all other (List.mem_cons_of_mem _ member)
      refine ⟨after, ?_, there⟩
      rw [collect_of_kind within.char (all char List.mem_cons_self), collected]

theorem Within.skip (within : scanner.Within prompt source (taken ++ rest))
    (blank : ∀ char ∈ taken, Text.isBlank char = true) :
    ∃ after : Scanner, after.Within prompt source rest ∧
      (scanner.collect Text.isBlank).2 = (after.collect Text.isBlank).2 := by
  induction taken generalizing scanner with
  | nil => exact ⟨scanner, within, rfl⟩
  | cons char more ih =>
      obtain ⟨after, there, same⟩ :=
        ih within.readChar_cons fun other member => blank other (List.mem_cons_of_mem _ member)
      refine ⟨after, there, ?_⟩
      rw [collect_of_kind within.char (blank char List.mem_cons_self), same]

theorem Within.skip_end (within : scanner.Within prompt source []) :
    (scanner.collect Text.isBlank).2 = (scanner.readChar.collect Text.isBlank).2 := by
  rw [collect_of_kind within.char (by decide)]

theorem tokens_append_of_blank (blank : ∀ char ∈ taken, Text.isBlank char = true) :
    tokens (taken ++ rest) = tokens rest := by
  induction taken with
  | nil => rfl
  | cons char more ih =>
      rw [List.cons_append, tokens_blank (blank char List.mem_cons_self),
        ih fun other member => blank other (List.mem_cons_of_mem _ member)]

theorem scan_of_skip {other : Scanner}
    (same : (scanner.collect Text.isBlank).2 = (other.collect Text.isBlank).2) :
    scanner.scan = other.scan := by
  simp only [scan, nextToken, same]

theorem Within.look (within : scanner.Within prompt source text) (token : Option Token) :
    ({ scanner with lookahead := token } : Scanner).Within prompt source text :=
  ⟨within.prompt, within.source, within.primed, within.going, within.sound, within.char, within.rest⟩

theorem Within.nextToken {token : Token}
    (within : scanner.Within prompt source (token.chars ++ rest)) (formed : token.Formed)
    (stops : token.Stops rest) :
    ∃ after, scanner.nextToken = (some token, after) ∧ after.Within prompt source rest := by
  obtain ⟨first, more, chars⟩ := List.exists_cons_of_ne_nil formed.chars_ne_nil
  have here : scanner.char = some first := by rw [within.char, chars]; rfl
  have solid : Text.isBlank first = false := formed.not_isBlank first (by simp [chars])
  have moved : scanner.readChar.Within prompt source (more ++ rest) := by
    rw [chars] at within
    exact within.readChar_cons
  simp only [Scanner.nextToken]
  rw [collect_of_stop (by simpa [here] using solid)]
  simp only [here]
  cases token with
  | numeric text =>
      obtain ⟨_, digits, rfl, starts, continues⟩ := formed
      obtain ⟨rfl, rfl⟩ := List.cons.inj chars
      obtain ⟨after, collected, there⟩ := moved.collect continues stops (by decide)
      exact ⟨after, by rw [if_pos starts, collected], there⟩
  | word text =>
      obtain ⟨_, letters, rfl, letter, continues⟩ := formed
      obtain ⟨rfl, rfl⟩ := List.cons.inj chars
      obtain ⟨after, collected, there⟩ := moved.collect continues stops (by decide)
      refine ⟨after, ?_, there⟩
      rw [Token.not_startsNumber_of_isLetter letter, if_neg (by simp), if_pos letter, collected]
  | delimiter char =>
      obtain ⟨rfl, rfl⟩ := List.cons.inj chars
      refine ⟨scanner.readChar, ?_, moved⟩
      rw [formed.2.1, if_neg (by simp), formed.2.2, if_neg (by simp)]

theorem scan_of_no_char (none : scanner.char = none) :
    scanner.scan = { scanner with lookahead := .none } := by
  simp only [scan, Scanner.nextToken]
  rw [collect_of_stop (by simp [none])]
  simp only [none]

theorem Over.scan {failure : Option SourceError} (spent : scanner.Over prompt source failure) :
    scanner.scan.Stands ⟨prompt, [], .ended failure⟩ source := by
  rw [scan_of_no_char spent.char]
  exact .spent rfl ⟨spent.prompt, spent.source, spent.primed, spent.done, spent.failure, spent.char⟩

/-- A scan within a line finds what a reader finds that has the tokens of the rest of the line. -/
theorem Within.scan (within : scanner.Within prompt source text) :
    scanner.scan.Stands (Reader.advance ⟨prompt, tokens text, .reading⟩ source).1
      (Reader.advance ⟨prompt, tokens text, .reading⟩ source).2 := by
  -- Each line that has no token takes the scanner to the next one, so the induction is on the lines.
  induction bound : source.pending.length using Nat.strongRecOn
    generalizing scanner source text with
  | ind size ih =>
      have blank : ∀ char ∈ text.takeWhile Text.isBlank, Text.isBlank char = true :=
        fun _ => List.mem_takeWhile_imp
      have split := List.takeWhile_append_dropWhile (p := Text.isBlank) (l := text)
      rw [← split] at within
      obtain ⟨after, there, same⟩ := within.skip blank
      have visible : tokens text = tokens (text.dropWhile Text.isBlank) :=
        (congrArg tokens split).symm.trans (tokens_append_of_blank blank)
      rw [scan_of_skip same, visible]
      cases left : text.dropWhile Text.isBlank with
      | cons char more =>
          have solid : Text.isBlank char = false :=
            Token.head?_dropWhile text char (by simp [left])
          obtain ⟨token, rest, formed, stops, chars⟩ := Token.exists_formed solid more
          rw [left, chars] at there
          obtain ⟨next, found, beyond⟩ := there.nextToken formed stops
          rw [chars, formed.tokens_append stops, Reader.advance_cons, Scanner.scan, found]
          exact .within rfl formed (beyond.look _)
      | nil =>
          rw [left] at there
          rw [scan_of_skip there.skip_end, show tokens [] = [] from rfl]
          cases answer : (source.next prompt).1.ending? with
          | some failure =>
              rw [Reader.advance_of_ending answer]
              exact (there.readChar_of_ending answer).scan
          | none =>
              have fewer := LineSource.pending_of_arrival answer
              rw [Reader.advance_of_arrival answer]
              exact ih _ (by omega) (there.readChar_of_arrival answer) rfl

/-- The scanner's next token is what the reader knows when it lets its lookahead pass. Both have
then asked for the same lines, and stand alike. -/
theorem Stands.scan {reader : Reader} (stands : scanner.Stands reader source) :
    scanner.scan.Stands (reader.pass source).1 (reader.pass source).2 := by
  cases stands with
  | within _ _ within => exact within.scan
  | spent _ spent => exact spent.scan

end Scanner

end SecdMachine
