import SecdMachine.Proofs.Decoding
import SecdMachine.Proofs.Lookahead
import SecdMachine.Proofs.ReadBack

/-!
Scanning to the end. Each token is the longest one that its place in the text begins with, so
nothing but blanks is lost; and a blank is enough to keep tokens apart, so they are found again in
a text that is made of them.
-/

namespace SecdMachine

inductive Lexeme : String → List Char → Prop
  | numeric {first : Char} {digits : List Char} (starts : Text.isDigit first = true ∨ first = '-')
      (continues : ∀ char ∈ digits, Text.isDigit char = true) : Lexeme "NUMERIC" (first :: digits)
  | alpha {first : Char} {more : List Char} (starts : Text.isLetter first = true)
      (continues : ∀ char ∈ more, Text.isLetter char = true ∨ Text.isDigit char = true) :
      Lexeme "ALPHA" (first :: more)
  | delimiter {char : Char} (solid : Text.isBlank char = false)
      (noDigit : Text.isDigit char = false) (noSign : char ≠ '-')
      (noLetter : Text.isLetter char = false) : Lexeme "DELIMITER" [char]

/-- A text cut into tokens. Blanks are passed over, and each token is the longest that the text
begins with there. -/
inductive Cuts : List Char → List Token → Prop
  | nil : Cuts [] []
  | blank {char : Char} {rest : List Char} {found : List Token} (blank : Text.isBlank char = true)
      (more : Cuts rest found) : Cuts (char :: rest) found
  | token {token : Token} {rest : List Char} {found : List Token}
      (lexeme : Lexeme token.className token.chars)
      (longest : ∀ longer : Token, Lexeme longer.className longer.chars →
        longer.chars <+: token.chars ++ rest → longer.chars.length ≤ token.chars.length)
      (more : Cuts rest found) : Cuts (token.chars ++ rest) (token :: found)

namespace Token

variable {token : Token} {rest : List Char}

theorem Formed.lexeme (formed : token.Formed) : Lexeme token.className token.chars := by
  cases token with
  | numeric text =>
      obtain ⟨first, digits, rfl, starts, continues⟩ := formed
      exact .numeric (by simpa [startsNumber] using starts) continues
  | word text =>
      obtain ⟨first, more, rfl, letter, continues⟩ := formed
      exact .alpha letter fun char member => by simpa [continuesWord] using continues char member
  | delimiter char =>
      obtain ⟨solid, noNumber, noLetter⟩ := formed
      simp only [startsNumber, Bool.or_eq_false_iff, decide_eq_false_iff_not] at noNumber
      exact .delimiter solid noNumber.1 noNumber.2 noLetter

@[simp] theorem className_numeric (text : List Char) : (numeric text).className = "NUMERIC" := rfl

@[simp] theorem className_word (text : List Char) : (word text).className = "ALPHA" := rfl

@[simp] theorem className_delimiter (char : Char) : (delimiter char).className = "DELIMITER" := rfl

theorem formed_of_lexeme (lexeme : Lexeme token.className token.chars) : token.Formed := by
  generalize classEq : token.className = className at lexeme
  generalize charsEq : token.chars = chars at lexeme
  cases token with
  | numeric text =>
      cases lexeme with
      | numeric starts continues =>
          exact ⟨_, _, charsEq, by simpa [startsNumber] using starts, continues⟩
      | alpha | delimiter => simp at classEq
  | word text =>
      cases lexeme with
      | alpha starts continues =>
          exact ⟨_, _, charsEq, starts, fun char member => by
            simpa [continuesWord] using continues char member⟩
      | numeric | delimiter => simp at classEq
  | delimiter char =>
      cases lexeme with
      | delimiter solid noDigit noSign noLetter =>
          cases charsEq
          exact ⟨solid, by simp [startsNumber, noDigit, noSign], noLetter⟩
      | numeric | alpha => simp at classEq

theorem Formed.chars_ne_nil (formed : token.Formed) : token.chars ≠ [] := by
  intro none
  have whole := formed.tokens_chars
  rw [none] at whole
  cases whole

theorem Formed.not_isBlank (formed : token.Formed) :
    ∀ char ∈ token.chars, Text.isBlank char = false := by
  simpa [literal] using formed.solid.2

def Stops : Token → List Char → Prop
  | numeric _, rest => ∀ char ∈ rest.head?, Text.isDigit char = false
  | word _, rest => ∀ char ∈ rest.head?, continuesWord char = false
  | delimiter _, _ => True

theorem Formed.tokens_append (formed : token.Formed) (stops : token.Stops rest) :
    tokens (token.chars ++ rest) = token :: tokens rest := by
  cases token with
  | numeric text =>
      obtain ⟨first, digits, rfl, starts, continues⟩ := formed
      rw [chars, List.cons_append, tokens_cons, not_isBlank_of_startsNumber starts,
        if_neg (by simp), starts, if_pos rfl, takeWhile_append_of_head stops,
        List.takeWhile_eq_self_iff.mpr continues, List.drop_left]
  | word text =>
      obtain ⟨first, more, rfl, letter, continues⟩ := formed
      rw [chars, List.cons_append, tokens_cons, Text.not_isBlank_of_isLetter letter,
        if_neg (by simp), not_startsNumber_of_isLetter letter, if_neg (by simp), letter,
        if_pos rfl, takeWhile_append_of_head stops, List.takeWhile_eq_self_iff.mpr continues,
        List.drop_left]
  | delimiter char =>
      obtain ⟨solid, noNumber, noLetter⟩ := formed
      rw [chars, List.singleton_append, tokens_cons, solid, if_neg (by simp), noNumber,
        if_neg (by simp), noLetter, if_neg (by simp)]

theorem head?_dropWhile {kind : Char → Bool} (text : List Char) :
    ∀ char ∈ (text.dropWhile kind).head?, kind char = false := by
  intro char member
  have stops := List.head?_dropWhile_not kind text
  rw [Option.mem_def.mp member] at stops
  simpa using stops

theorem exists_formed {char : Char} (solid : Text.isBlank char = false) (rest : List Char) :
    ∃ token after, Formed token ∧ token.Stops after ∧ char :: rest = token.chars ++ after := by
  by_cases starts : startsNumber char = true
  · refine ⟨.numeric (char :: rest.takeWhile Text.isDigit), rest.dropWhile Text.isDigit,
      ⟨_, _, rfl, starts, fun _ => List.mem_takeWhile_imp⟩, head?_dropWhile rest, ?_⟩
    rw [chars, List.cons_append, List.takeWhile_append_dropWhile]
  · by_cases letter : Text.isLetter char = true
    · refine ⟨.word (char :: rest.takeWhile continuesWord), rest.dropWhile continuesWord,
        ⟨_, _, rfl, letter, fun _ => List.mem_takeWhile_imp⟩, head?_dropWhile rest, ?_⟩
      rw [chars, List.cons_append, List.takeWhile_append_dropWhile]
    · exact ⟨.delimiter char, rest, ⟨solid, by simpa using starts, by simpa using letter⟩, trivial,
        rfl⟩

theorem Formed.longest_of_stops (formed : token.Formed) (stops : token.Stops rest)
    {longer : Token} (also : longer.Formed) (within : longer.chars <+: token.chars ++ rest) :
    longer.chars.length ≤ token.chars.length := by
  by_contra exceeds
  obtain ⟨more, same⟩ :=
    List.prefix_of_prefix_length_le (List.prefix_append token.chars rest) within (by omega)
  have partly : token.Stops more := by
    rw [← same, List.prefix_append_right_inj] at within
    obtain ⟨after, rfl⟩ := within
    cases more with
    | nil => cases token <;> simp [Stops]
    | cons next others => cases token <;> exact stops
  have whole := formed.tokens_append partly
  rw [same, also.tokens_chars] at whole
  exact exceeds (Nat.le_of_eq (congrArg (·.chars.length) (List.cons.inj whole).1))

theorem Formed.stops_of_longest (formed : token.Formed)
    (longest : ∀ longer : Token, longer.Formed → longer.chars <+: token.chars ++ rest →
      longer.chars.length ≤ token.chars.length) : token.Stops rest := by
  have extended : ∀ char ∈ rest.head?, ∀ longer : Token, longer.chars = token.chars ++ [char] →
      ¬longer.Formed := by
    intro char next longer same also
    obtain ⟨more, rfl⟩ := List.head?_eq_some_iff.mp next
    have bound := longest longer also ⟨more, by simp [same]⟩
    rw [same, List.length_append, List.length_singleton] at bound
    omega
  cases token with
  | numeric text =>
      obtain ⟨first, digits, rfl, starts, continues⟩ := formed
      intro char next
      by_contra digit
      refine extended char next (.numeric (first :: (digits ++ [char]))) rfl
        ⟨_, _, rfl, starts, ?_⟩
      rw [List.forall_mem_append, List.forall_mem_singleton]
      exact ⟨continues, by simpa using digit⟩
  | word text =>
      obtain ⟨first, more, rfl, letter, continues⟩ := formed
      intro char next
      by_contra goesOn
      refine extended char next (.word (first :: (more ++ [char]))) rfl ⟨_, _, rfl, letter, ?_⟩
      rw [List.forall_mem_append, List.forall_mem_singleton]
      exact ⟨continues, by simpa using goesOn⟩
  | delimiter char => trivial

end Token

/-- A text is cut in one way only. -/
theorem cuts_iff {text : List Char} {found : List Token} :
    Cuts text found ↔ tokens text = found := by
  constructor
  · intro cuts
    induction cuts with
    | nil => rfl
    | blank blank _ ih => rw [tokens_blank blank, ih]
    | token lexeme longest _ ih =>
        have formed := Token.formed_of_lexeme lexeme
        have stops := formed.stops_of_longest fun longer also => longest longer also.lexeme
        rw [formed.tokens_append stops, ih]
  · rintro rfl
    -- A token takes any number of characters, so the induction is on the length of the text.
    induction bound : text.length using Nat.strongRecOn generalizing text with
    | ind length ih =>
        cases text with
        | nil => exact .nil
        | cons char rest =>
            cases blank : Text.isBlank char with
            | true =>
                rw [tokens_blank blank]
                exact .blank blank (ih rest.length (by simp at bound; omega) rfl)
            | false =>
                obtain ⟨token, after, formed, stops, split⟩ := Token.exists_formed blank rest
                rw [split, formed.tokens_append stops]
                refine .token formed.lexeme (fun longer also within =>
                  formed.longest_of_stops stops (Token.formed_of_lexeme also) within)
                  (ih after.length ?_ rfl)
                have some := List.length_pos_of_ne_nil formed.chars_ne_nil
                rw [← bound, split, List.length_append]
                omega

theorem Cuts.flatMap_chars {text : List Char} {found : List Token} (cuts : Cuts text found) :
    found.flatMap Token.chars = text.filter fun char => !Text.isBlank char := by
  induction cuts with
  | nil => rfl
  | blank blank _ ih => simp [blank, ih]
  | token lexeme _ _ ih =>
      have solid := (Token.formed_of_lexeme lexeme).not_isBlank
      rw [List.flatMap_cons, ih, List.filter_append]
      congr 1
      exact (List.filter_eq_self.mpr fun char member => by simp [solid char member]).symm

/-- A blank between them keeps tokens as they are. -/
theorem tokens_intercalate {found : List Token} (formed : ∀ token ∈ found, token.Formed) :
    tokens (" ".intercalate (found.map Token.literal)).toList = found := by
  rw [String.toList_intercalate, List.map_map]
  have chars : String.toList ∘ Token.literal = Token.chars := by
    funext token
    simp [Token.literal]
  rw [chars]
  induction found with
  | nil => rfl
  | cons token rest ih =>
      obtain ⟨here, later⟩ := List.forall_mem_cons.mp formed
      cases rest with
      | nil => simpa using here.tokens_chars
      | cons next more =>
          have separate : " ".toList = [' '] := rfl
          rw [List.map_cons, List.map_cons, List.intercalate_cons_cons, separate, List.append_assoc,
            List.singleton_append, tokens_append_blank (by decide), here.tokens_chars]
          exact congrArg (token :: ·) (ih later)

namespace Reader

/-- Scanning to the end of the input. The reader shows each token, and passes over it to the next
one, until it shows that there is none. -/
inductive Scans : Reader → LineSource → List Token → Prop
  | ended {reader : Reader} {source : LineSource} (used : (reader.advance source).1.tokens = [])
      (shows : (reader.advance source).1.Shows none) : Scans reader source []
  | token {reader : Reader} {source : LineSource} {token : Token} {rest found : List Token}
      (ready : (reader.advance source).1.tokens = token :: rest)
      (shows : (reader.advance source).1.Shows (some token))
      (more : Scans { (reader.advance source).1 with tokens := rest } (reader.advance source).2
        found) : Scans reader source (token :: found)

theorem Scans.unique {reader : Reader} {source : LineSource} {found others : List Token}
    (scans : Scans reader source found) (also : Scans reader source others) : found = others := by
  induction scans generalizing others with
  | ended used =>
      cases also with
      | ended => rfl
      | token ready =>
          rw [used] at ready
          cases ready
  | token ready _ _ ih =>
      cases also with
      | ended used =>
          rw [ready] at used
          cases used
      | token also _ more =>
          rw [ready] at also
          cases also
          rw [ih more]

theorem Ahead.rest {reader : Reader} {source : LineSource} {all rest : List Token} {token : Token}
    (ahead : Ahead reader source all) (running : reader.stage = .reading)
    (ready : reader.tokens = token :: rest) :
    ∃ more, all = token :: more ∧ Ahead { reader with tokens := rest } source more := by
  cases ahead with
  | reading _ reliable =>
      exact ⟨_, by rw [ready, List.cons_append], .reading (Or.inr running) reliable⟩
  | ended _ used =>
      rw [used] at ready
      cases ready

theorem Ahead.scans {reader : Reader} {source : LineSource} {all : List Token}
    (ahead : Ahead reader source all) : Scans reader source all := by
  induction all generalizing reader source with
  | nil =>
      obtain ⟨still, ⟨_, used, _⟩ | ⟨running, some⟩⟩ := ahead.advance
      · exact .ended used (still.shows (known_advance reader source))
      · obtain ⟨token, rest, ready⟩ := List.exists_cons_of_ne_nil some
        obtain ⟨_, ⟨⟩, _⟩ := still.rest running ready
  | cons token more ih =>
      obtain ⟨still, ⟨_, _, ⟨⟩⟩ | ⟨running, some⟩⟩ := ahead.advance
      obtain ⟨first, rest, ready⟩ := List.exists_cons_of_ne_nil some
      obtain ⟨_, ⟨⟩, next⟩ := still.rest running ready
      exact .token ready (still.shows (known_advance reader source)) (ih next)

theorem scans_ofText_iff (text : List Char) {found : List Token} :
    Scans {} (LineSource.ofText text) found ↔ found = SecdMachine.tokens text := by
  have scans := (LineSource.ahead_ofText defaultPrompt text).scans
  constructor
  · exact fun also => also.unique scans
  · rintro rfl
    exact scans

end Reader

/-- However a source of bytes is made up, scanning it ends. The tokens are the longest ones at their
places in the text that the bytes decode to, and hold all of it but the blanks; and with a blank
between any two of them, they make a text in which scanning finds the same tokens. -/
theorem scanning_loses_nothing (bytes : Text.Bytes) :
    let source := fun bytes => LineSource.ofText (Text.decode bytes)
    ∃ text found, Text.Decodes bytes text ∧ Cuts text found ∧
      (∀ others, Reader.Scans {} (source bytes) others ↔ others = found) ∧
      (∀ token ∈ found, Lexeme token.className token.literal.toList) ∧
      String.join (found.map Token.literal) =
        String.ofList (text.filter fun char => !Text.isBlank char) ∧
      ∀ others, Reader.Scans {}
        (source (Text.encode (" ".intercalate (found.map Token.literal)))) others ↔
          others = found := by
  intro source
  have cuts := cuts_iff.mpr (rfl : tokens (Text.decode bytes) = _)
  have formed : ∀ token ∈ tokens (Text.decode bytes), token.Formed :=
    fun token => Token.formed_of_mem
  refine ⟨Text.decode bytes, tokens (Text.decode bytes), Text.decodes_iff.mpr rfl, cuts,
    fun others => Reader.scans_ofText_iff _, ?_, ?_, fun others => ?_⟩
  · intro token member
    rw [Token.literal, String.toList_ofList]
    exact (formed token member).lexeme
  · rw [← cuts.flatMap_chars, ← String.toList_inj, String.toList_join, String.toList_ofList,
      List.flatMap_map]
    simp [Token.literal]
  · rw [Reader.scans_ofText_iff, Text.encode_eq, Text.decode_flatMap, tokens_intercalate formed]

end SecdMachine
