import SecdMachine.Proofs.Lookahead

/-!
The grammar of expressions, and what its expressions denote. A text whose tokens are expressions one
after the other is read as the trees they denote, and the reader never looks further ahead than the
first token of the next one.
-/

namespace SecdMachine

namespace Token

def IsSymbol : Token → Prop
  | word _ => True
  | numeric text => text = ['-']
  | delimiter char => char ∉ ['(', ')', '.']

theorem IsSymbol.spells {token : Token} (symbol : token.IsSymbol) :
    token.Spells (.symbol token.literal) := by
  cases token with
  | word text => exact ⟨by simp, by simp, fun lists => rfl⟩
  | numeric text =>
      rw [IsSymbol] at symbol
      subst symbol
      exact ⟨by simp, by simp, fun lists => rfl⟩
  | delimiter char =>
      simp only [IsSymbol, List.mem_cons, List.not_mem_nil, or_false, not_or] at symbol
      obtain ⟨noOpening, noClosing, noDot⟩ := symbol
      refine ⟨by simpa using noClosing, by simpa using noDot, ?_⟩
      intro lists
      simp [Progress.begin, noOpening]

end Token

mutual

inductive Expression : List Token → Datum → Prop
  | integer {text : List Char} {number : Int64} (decimal : Literal.Decimal text number) :
      Expression [.numeric text] (.integer number)
  | symbol {token : Token} (single : token.IsSymbol) : Expression [token] (.symbol token.literal)
  | empty : Expression [.delimiter '(', .delimiter ')'] Datum.nil
  | list {inner : List Token} {elements : List Datum} (inside : Expressions inner elements) :
      Expression (.delimiter '(' :: inner ++ [.delimiter ')']) (Datum.ofList elements)
  | dotted {inner after : List Token} {elements : List Datum} {tail : Datum}
      (inside : Expressions inner elements) (ending : Expression after tail) :
      Expression (.delimiter '(' :: inner ++ .delimiter '.' :: after ++ [.delimiter ')'])
        (elements.foldr .pair tail)

inductive Expressions : List Token → List Datum → Prop
  | one {found : List Token} {datum : Datum} (only : Expression found datum) :
      Expressions found [datum]
  | more {before found : List Token} {datums : List Datum} {datum : Datum}
      (earlier : Expressions before datums) (last : Expression found datum) :
      Expressions (before ++ found) (datums ++ [datum])

end

namespace Datum

theorem ofReversed_reverse (elements : List Datum) (tail : Datum) :
    ofReversed elements.reverse tail = elements.foldr pair tail := by
  rw [ofReversed, List.foldl_reverse]

end Datum

namespace Progress

def Passes (found : List Token) (datum : Datum) : Prop :=
  ∀ (progress : Progress) (lists : List OpenList) (rest : List Token), progress.Awaits lists →
    progress.feed (found ++ rest) = (finish datum lists).feed rest

def Fills (found : List Token) (datums : List Datum) : Prop :=
  ∃ earlier last, datums = earlier ++ [last] ∧ ∀ lists rest,
    (opened lists).feed (found ++ rest) =
      (holding last (.elements earlier.reverse) lists).feed rest

theorem passes_of_spells {token : Token} {datum : Datum} (spells : token.Spells datum) :
    Passes [token] datum :=
  fun _ _ rest awaits => feed_spelled awaits spells rest

theorem Awaits.feed_opening {progress : Progress} {lists : List OpenList}
    (awaits : progress.Awaits lists) (rest : List Token) :
    progress.feed (.delimiter '(' :: rest) = (opened lists).feed rest :=
  awaits.feed_cons (by simp) (by simp) rfl rest

theorem Passes.readTokens_append {found : List Token} {datum : Datum} (passes : Passes found datum)
    (some : found ≠ []) (rest : List Token) : readTokens (found ++ rest) = (.ok datum, rest) := by
  have fed := passes start [] rest (awaits_expecting [])
  rw [finish, feed_complete] at fed
  obtain ⟨token, more, same⟩ := List.exists_cons_of_ne_nil some
  rw [same, List.cons_append] at fed ⊢
  rw [readTokens, fed]
  rfl

theorem passes_empty : Passes [.delimiter '(', .delimiter ')'] Datum.nil := by
  intro progress lists rest awaits
  rw [List.cons_append, awaits.feed_opening]
  simp [feed, consume]

theorem Fills.list {inner : List Token} {elements : List Datum} (fills : Fills inner elements) :
    Passes (.delimiter '(' :: inner ++ [.delimiter ')']) (Datum.ofList elements) := by
  obtain ⟨earlier, last, rfl, filled⟩ := fills
  intro progress lists rest awaits
  have whole : Datum.ofReversed (last :: earlier.reverse) Datum.nil =
      Datum.ofList (earlier ++ [last]) := by
    rw [Datum.ofList, ← Datum.ofReversed_reverse, List.reverse_append]
    rfl
  rw [List.append_assoc, List.cons_append, awaits.feed_opening, filled, List.singleton_append,
    feed_closing, whole]

theorem Fills.dotted {inner after : List Token} {elements : List Datum} {tail : Datum}
    (fills : Fills inner elements) (passes : Passes after tail) :
    Passes (.delimiter '(' :: inner ++ .delimiter '.' :: after ++ [.delimiter ')'])
      (elements.foldr .pair tail) := by
  obtain ⟨earlier, last, rfl, filled⟩ := fills
  intro progress lists rest awaits
  have whole : Datum.ofReversed (last :: earlier.reverse) tail =
      (earlier ++ [last]).foldr .pair tail := by
    rw [← Datum.ofReversed_reverse, List.reverse_append]
    rfl
  simp only [List.append_assoc, List.cons_append, List.nil_append]
  rw [awaits.feed_opening, filled, feed_dot, passes _ _ _ (awaits_expecting _), finish,
    feed_afterTail, whole]

theorem Passes.one {found : List Token} {datum : Datum} (passes : Passes found datum) :
    Fills found [datum] := by
  refine ⟨[], datum, rfl, ?_⟩
  intro lists rest
  exact passes _ _ rest (awaits_opened lists)

theorem Fills.more {before found : List Token} {datums : List Datum} {datum : Datum}
    (fills : Fills before datums) (passes : Passes found datum) :
    Fills (before ++ found) (datums ++ [datum]) := by
  obtain ⟨earlier, last, rfl, filled⟩ := fills
  refine ⟨earlier ++ [last], datum, rfl, ?_⟩
  intro lists rest
  rw [List.append_assoc, filled, passes _ _ rest (awaits_holding last earlier.reverse lists),
    List.reverse_append]
  rfl

mutual

theorem passes_of_expression {found : List Token} {datum : Datum} :
    Expression found datum → Passes found datum
  | .integer decimal => passes_of_spells decimal.spells
  | .symbol single => passes_of_spells single.spells
  | .empty => passes_empty
  | .list inside => (fills_of_expressions inside).list
  | .dotted inside ending => (fills_of_expressions inside).dotted (passes_of_expression ending)

theorem fills_of_expressions {found : List Token} {datums : List Datum} :
    Expressions found datums → Fills found datums
  | .one only => (passes_of_expression only).one
  | .more earlier last => (fills_of_expressions earlier).more (passes_of_expression last)

end

end Progress

structure Phrase where
  tokens : List Token
  datum : Datum
  derived : Expression tokens datum

namespace Phrase

theorem tokens_ne_nil (phrase : Phrase) : phrase.tokens ≠ [] := by
  obtain ⟨found, datum, derived⟩ := phrase
  cases derived <;> simp

theorem readTokens_append (phrase : Phrase) (rest : List Token) :
    readTokens (phrase.tokens ++ rest) = (.ok phrase.datum, rest) :=
  (Progress.passes_of_expression phrase.derived).readTokens_append phrase.tokens_ne_nil rest

theorem head?_flatMap (phrases : List Phrase) :
    (phrases.flatMap Phrase.tokens).head? = phrases.head?.bind (·.tokens.head?) := by
  cases phrases with
  | nil => rfl
  | cons phrase rest =>
      obtain ⟨token, more, same⟩ := List.exists_cons_of_ne_nil phrase.tokens_ne_nil
      simp [same]

end Phrase

namespace Reader

theorem Ahead.afterReads_phrases {reader : Reader} {source : LineSource} {phrases : List Phrase}
    (ahead : Ahead reader source (phrases.flatMap Phrase.tokens)) (reads : Nat) :
    Ahead (reader.afterReads source reads).1 (reader.afterReads source reads).2
      ((phrases.drop reads).flatMap Phrase.tokens) := by
  induction reads with
  | zero => exact ahead
  | succ reads ih =>
      have next := ih.read.2
      have left : (readTokens ((phrases.drop reads).flatMap Phrase.tokens)).2 =
          (phrases.drop (reads + 1)).flatMap Phrase.tokens := by
        rw [← List.tail_drop]
        cases phrases.drop reads with
        | nil => rfl
        | cons phrase rest => rw [List.flatMap_cons, phrase.readTokens_append, List.tail_cons]
      rw [left] at next
      exact next

/-- A text that falls into expressions is read as the trees they denote, one after the other, and
then as the end of the input. After each of them the lookahead is the first token of the next. -/
theorem expressions_are_read (phrases : List Phrase) (text : List Char) (prompt : String)
    (scanned : SecdMachine.tokens text = phrases.flatMap Phrase.tokens) :
    (∀ (reads : Nat) (phrase : Phrase), phrases[reads]? = some phrase →
      let reading := nextRead { prompt := prompt } (.ofText text) reads
      reading.outcome = .ok phrase.datum ∧
        reading.reader.Shows (phrases[reads + 1]?.bind (·.tokens.head?))) ∧
    ∀ reads, phrases.length ≤ reads →
      (nextRead { prompt := prompt } (.ofText text) reads).outcome = .error .endOfInput := by
  have ahead := LineSource.ahead_ofText prompt text
  rw [scanned] at ahead
  constructor
  · -- The lookahead after this read is what is ahead before the next one.
    intro reads phrase found
    have here := (ahead.afterReads_phrases reads).read
    have after := (ahead.afterReads_phrases (reads + 1)).shows (known_read _ _)
    have split : phrases.drop reads = phrase :: phrases.drop (reads + 1) := by
      obtain ⟨inside, rfl⟩ := List.getElem?_eq_some_iff.mp found
      exact List.drop_eq_getElem_cons inside
    rw [split, List.flatMap_cons, phrase.readTokens_append] at here
    rw [Phrase.head?_flatMap, List.head?_drop] at after
    exact ⟨here.1, after⟩
  · intro reads past
    have here := (ahead.afterReads_phrases reads).read.1
    rw [List.drop_eq_nil_of_le past] at here
    exact here

def variousPhrases : List Phrase :=
  have letter : ∀ char, Expression [.word [char]] (.symbol (String.ofList [char])) :=
    fun _ => .symbol trivial
  [⟨_, _, .dotted (.one (letter 'x')) (.list (.more (.one (letter 'y')) (letter 'z')))⟩,
    ⟨_, _, .list (.more (.more (.one (letter 'x')) (letter 'y')) (letter 'z'))⟩,
    ⟨_, .integer (-5), .integer (@Literal.Decimal.negative ['5'] (-5) (by simp) (by simp) rfl)⟩,
    ⟨_, _, .empty⟩]

theorem variousPhrases_are_read :
    let text := "(x . (y z)) (x y z)\n -5()".toList
    let reading := nextRead { prompt := "" } (.ofText text)
    let triple := Datum.ofList [.symbol "x", .symbol "y", .symbol "z"]
    SecdMachine.tokens text = variousPhrases.flatMap Phrase.tokens ∧
    ((reading 0).outcome = .ok triple ∧ (reading 0).reader.Shows (some (.delimiter '('))) ∧
    ((reading 1).outcome = .ok triple ∧ (reading 1).reader.Shows (some (.numeric ['-', '5']))) ∧
    ((reading 2).outcome = .ok (.integer (-5)) ∧
      (reading 2).reader.Shows (some (.delimiter '('))) ∧
    ((reading 3).outcome = .ok Datum.nil ∧ (reading 3).reader.Shows none) ∧
    (reading 4).outcome = .error .endOfInput := by
  intro text reading triple
  have scanned : SecdMachine.tokens text = variousPhrases.flatMap Phrase.tokens := by decide
  obtain ⟨reads, ends⟩ := expressions_are_read variousPhrases text "" scanned
  exact ⟨scanned, reads 0 _ rfl, reads 1 _ rfl, reads 2 _ rfl, reads 3 _ rfl, ends 4 (by decide)⟩

end Reader

end SecdMachine
