import Mathlib.Data.List.TakeWhile
import SecdMachine.Token

/-!
How a text falls into tokens. The classes of characters exclude each other, so no token goes on past
a character that is neither a letter nor a digit, and a text may be cut there.
-/

namespace SecdMachine

namespace Text

def apart : List (Nat × Nat) → List (Nat × Nat) → Bool
  | [], _ => true
  | range :: rest, table =>
      match table.dropWhile fun other => other.2 < range.1 with
      | [] => true
      | other :: later => range.2 < other.1 && apart rest (other :: later)

theorem lower_le_of_inRanges {code : Nat} {range : Nat × Nat} {rest : List (Nat × Nat)}
    (inside : inRanges code (range :: rest) = true) : range.1 ≤ code := by
  rw [inRanges] at inside
  split at inside
  next => simp at inside
  next above => omega

theorem inRanges_rest {code : Nat} {range : Nat × Nat} {rest : List (Nat × Nat)}
    (inside : inRanges code (range :: rest) = true) (past : range.2 < code) :
    inRanges code rest = true := by
  rw [inRanges] at inside
  split at inside
  next => simp at inside
  next above =>
    have beyond : ¬code ≤ range.2 := by omega
    simpa [beyond] using inside

theorem inRanges_dropWhile {code bound : Nat} {table : List (Nat × Nat)}
    (inside : inRanges code table = true) (above : bound ≤ code) :
    inRanges code (table.dropWhile fun other => other.2 < bound) = true := by
  induction table with
  | nil => exact inside
  | cons range rest ih =>
      by_cases below : range.2 < bound
      · simp only [List.dropWhile_cons, below, decide_true, if_true]
        exact ih (inRanges_rest inside (by omega))
      · simpa [List.dropWhile_cons, below] using inside

theorem not_inRanges_of_apart {code : Nat} {table other : List (Nat × Nat)}
    (separate : apart table other = true) (inside : inRanges code table = true) :
    ¬inRanges code other = true := by
  induction table generalizing other with
  | nil => simp [inRanges] at inside
  | cons range rest ih =>
      intro also
      have kept := inRanges_dropWhile also (lower_le_of_inRanges inside)
      simp only [apart] at separate
      split at separate
      next none =>
        rw [none] at kept
        simp [inRanges] at kept
      next first later remaining =>
        rw [remaining] at kept
        simp only [Bool.and_eq_true, decide_eq_true_eq] at separate
        have past : range.2 < code := by
          have := lower_le_of_inRanges kept
          omega
        exact ih separate.2 (inRanges_rest inside past) kept

theorem not_isDigit_of_isLetter {char : Char} (letter : isLetter char = true) :
    isDigit char = false :=
  Bool.eq_false_iff.mpr (not_inRanges_of_apart
    (by decide +kernel : apart letterRanges digitRanges = true) letter)

theorem not_isBlank_of_isLetter {char : Char} (letter : isLetter char = true) :
    isBlank char = false :=
  Bool.eq_false_iff.mpr (not_inRanges_of_apart
    (by decide +kernel : apart letterRanges blankRanges = true) letter)

theorem not_isBlank_of_isDigit {char : Char} (digit : isDigit char = true) :
    isBlank char = false :=
  Bool.eq_false_iff.mpr (not_inRanges_of_apart
    (by decide +kernel : apart digitRanges blankRanges = true) digit)

end Text

theorem Token.not_continuesWord_of_isBlank {char : Char} (blank : Text.isBlank char = true) :
    continuesWord char = false := by
  rw [Bool.eq_false_iff]
  intro continues
  simp only [continuesWord, Bool.or_eq_true] at continues
  rcases continues with letter | digit
  · rw [Text.not_isBlank_of_isLetter letter] at blank
    simp at blank
  · rw [Text.not_isBlank_of_isDigit digit] at blank
    simp at blank

theorem Token.not_isBlank_of_startsNumber {char : Char} (starts : startsNumber char = true) :
    Text.isBlank char = false := by
  simp only [startsNumber, Bool.or_eq_true, decide_eq_true_eq] at starts
  rcases starts with digit | rfl
  · exact Text.not_isBlank_of_isDigit digit
  · decide

theorem Token.not_startsNumber_of_isLetter {char : Char} (letter : Text.isLetter char = true) :
    startsNumber char = false := by
  have noSign : char ≠ '-' := by
    rintro rfl
    exact absurd letter (by decide)
  simp [startsNumber, Text.not_isDigit_of_isLetter letter, noSign]

theorem tokens_cons (char : Char) (rest : List Char) :
    tokens (char :: rest) =
      if Text.isBlank char then tokens rest
      else if Token.startsNumber char then
        .numeric (char :: rest.takeWhile Text.isDigit) ::
          tokens (rest.drop (rest.takeWhile Text.isDigit).length)
      else if Text.isLetter char then
        .word (char :: rest.takeWhile Token.continuesWord) ::
          tokens (rest.drop (rest.takeWhile Token.continuesWord).length)
      else .delimiter char :: tokens rest := by
  simp only [tokens, tokensAfter]
  simp only [tokensAfter_eq_tokens_drop]
  rfl

theorem takeWhile_append_of_head {kind : Char → Bool} {left right : List Char}
    (stops : ∀ char ∈ right.head?, kind char = false) :
    (left ++ right).takeWhile kind = left.takeWhile kind := by
  have none : right.takeWhile kind = [] := by
    cases right with
    | nil => rfl
    | cons char rest =>
        have stop : kind char = false := stops char rfl
        simp [stop]
  rw [List.takeWhile_append, none]
  split
  next whole =>
    have same := (List.takeWhile_prefix kind).eq_of_length whole
    rw [List.append_nil, same]
  next => rfl

/-- A text may be cut before a character that is neither a letter nor a digit. -/
theorem tokens_append {left right : List Char}
    (stops : ∀ char ∈ right.head?, Token.continuesWord char = false) :
    tokens (left ++ right) = tokens left ++ tokens right := by
  have noDigit : ∀ char ∈ right.head?, Text.isDigit char = false := by
    intro char first
    have stop := stops char first
    simp only [Token.continuesWord, Bool.or_eq_false_iff] at stop
    exact stop.2
  -- A token takes any number of characters, so the induction is on the length of the left part.
  induction bound : left.length using Nat.strongRecOn generalizing left with
  | ind length ih =>
      cases left with
      | nil => simp [tokens, tokensAfter]
      | cons char rest =>
          have shorter : ∀ {used : List Char} {kind : Char → Bool},
              used = rest.takeWhile kind →
              tokens ((rest ++ right).drop used.length) =
                tokens (rest.drop used.length) ++ tokens right := by
            rintro used kind rfl
            have fits := (List.takeWhile_prefix kind : rest.takeWhile kind <+: rest).length_le
            rw [List.drop_append_of_le_length fits]
            refine ih _ ?_ rfl
            simp only [List.length_cons, List.length_drop] at *
            omega
          have whole := ih rest.length (by simp at bound; omega) rfl
          rw [List.cons_append, tokens_cons, tokens_cons char rest,
            takeWhile_append_of_head noDigit, takeWhile_append_of_head stops, shorter rfl,
            shorter rfl, whole]
          split
          · rfl
          · split
            · rfl
            · split <;> rfl

theorem tokens_blank {char : Char} (blank : Text.isBlank char = true) (rest : List Char) :
    tokens (char :: rest) = tokens rest := by
  rw [tokens_cons, if_pos blank]

theorem tokens_append_blank {char : Char} (blank : Text.isBlank char = true)
    (left right : List Char) : tokens (left ++ char :: right) = tokens left ++ tokens right := by
  rw [tokens_append, tokens_blank blank]
  rintro _ ⟨⟩
  exact Token.not_continuesWord_of_isBlank blank

theorem tokens_parenthesis (rest : List Char) :
    tokens ('(' :: rest) = .delimiter '(' :: tokens rest := by
  rw [tokens_cons, if_neg (by decide), if_neg (by decide), if_neg (by decide)]

theorem tokens_word {first : Char} {more : List Char} (letter : Text.isLetter first = true)
    (continues : ∀ char ∈ more, Token.continuesWord char = true) :
    tokens (first :: more) = [.word (first :: more)] := by
  rw [tokens_cons, Text.not_isBlank_of_isLetter letter, Token.not_startsNumber_of_isLetter letter,
    letter, List.takeWhile_eq_self_iff.mpr continues]
  simp [tokens, tokensAfter]

theorem tokens_number {first : Char} {digits : List Char}
    (starts : Token.startsNumber first = true)
    (continues : ∀ char ∈ digits, Text.isDigit char = true) :
    tokens (first :: digits) = [.numeric (first :: digits)] := by
  rw [tokens_cons, Token.not_isBlank_of_startsNumber starts, starts,
    List.takeWhile_eq_self_iff.mpr continues]
  simp [tokens, tokensAfter]

theorem tokens_delimiter {char : Char} (noBlank : Text.isBlank char = false)
    (noNumber : Token.startsNumber char = false) (noLetter : Text.isLetter char = false) :
    tokens [char] = [.delimiter char] := by
  simp [tokens, tokensAfter, noBlank, noNumber, noLetter]

def Severed (text : List Char) : Prop :=
  ∀ more, tokens (text ++ more) = tokens text ++ tokens more

theorem severed_nil : Severed [] := by
  intro more
  simp [tokens, tokensAfter]

theorem severed_blank {char : Char} (blank : Text.isBlank char = true) (text : List Char) :
    Severed (text ++ [char]) := by
  intro more
  rw [List.append_assoc, List.singleton_append, tokens_append_blank blank,
    tokens_append_blank blank]
  simp [tokens, tokensAfter]

theorem severed_parenthesis (text : List Char) : Severed (text ++ ['(']) := by
  intro more
  have stops : ∀ rest : List Char, ∀ char ∈ ('(' :: rest).head?,
      Token.continuesWord char = false := by
    rintro rest _ ⟨⟩
    decide
  rw [List.append_assoc, List.singleton_append, tokens_append (stops more),
    tokens_append (stops []), tokens_parenthesis, tokens_parenthesis]
  simp [tokens, tokensAfter]

end SecdMachine
