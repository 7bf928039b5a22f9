import SecdMachine.Proofs.FinalErrors
import SecdMachine.Proofs.LineBreaks
import SecdMachine.Proofs.Closing

/-!
Reading as a recursive descent. An expression that is a list calls for its elements, and each of them
is an expression again; nothing but the tokens bounds the two, and they go on with parentheses that
are not there when the tokens are used up. They come to an end for all tokens, in one way only, and it
is what the reader gives. Only a number that is no integer stops them early.
-/

namespace SecdMachine

def AtClosing (found : List Token) : Prop :=
  ∀ token ∈ found.head?, token = .delimiter ')'

mutual

inductive Descends : List Token → Except LiteralError Datum → List Token → Prop
  | atEnd : Descends [] (.ok (.symbol ")")) []
  | integer {text : List Char} {number : Int64} {rest : List Token} (noSign : text ≠ ['-'])
      (read : Literal.integer text = .ok number) :
      Descends (.numeric text :: rest) (.ok (.integer number)) rest
  | bad {text : List Char} {problem : LiteralProblem} {rest : List Token} (noSign : text ≠ ['-'])
      (read : Literal.integer text = .error problem) :
      Descends (.numeric text :: rest) (.error ⟨String.ofList text, problem⟩) (.numeric text :: rest)
  | symbol {token : Token} {rest : List Token} (noOpening : token ≠ .delimiter '(')
      (noNumber : ∀ text, token = .numeric text → text = ['-']) :
      Descends (token :: rest) (.ok (.symbol token.literal)) rest
  | empty {rest : List Token} (closes : AtClosing rest) :
      Descends (.delimiter '(' :: rest) (.ok Datum.nil) rest.tail
  | list {rest after : List Token} {datum : Datum} (unclosed : ¬AtClosing rest)
      (inside : Gathers [] rest (.ok datum) after) :
      Descends (.delimiter '(' :: rest) (.ok datum) after.tail
  | broken {rest after : List Token} {error : LiteralError} (unclosed : ¬AtClosing rest)
      (inside : Gathers [] rest (.error error) after) :
      Descends (.delimiter '(' :: rest) (.error error) after

inductive Gathers : List Datum → List Token → Except LiteralError Datum → List Token → Prop
  | broken {reversed : List Datum} {found rest : List Token} {error : LiteralError}
      (element : Descends found (.error error) rest) : Gathers reversed found (.error error) rest
  | dotted {reversed : List Datum} {found rest after : List Token} {datum tail : Datum}
      (element : Descends found (.ok datum) (.delimiter '.' :: rest))
      (ending : Descends rest (.ok tail) after) :
      Gathers reversed found (.ok (Datum.ofReversed (datum :: reversed) tail)) after
  | brokenTail {reversed : List Datum} {found rest after : List Token} {datum : Datum}
      {error : LiteralError} (element : Descends found (.ok datum) (.delimiter '.' :: rest))
      (ending : Descends rest (.error error) after) : Gathers reversed found (.error error) after
  | closed {reversed : List Datum} {found rest : List Token} {datum : Datum}
      (element : Descends found (.ok datum) rest) (closes : AtClosing rest) :
      Gathers reversed found (.ok (Datum.ofReversed (datum :: reversed) Datum.nil)) rest
  | more {reversed : List Datum} {found rest after : List Token} {token : Token} {datum : Datum}
      {result : Except LiteralError Datum} (element : Descends found (.ok datum) (token :: rest))
      (noClosing : token ≠ .delimiter ')') (noDot : token ≠ .delimiter '.')
      (others : Gathers (datum :: reversed) (token :: rest) result after) :
      Gathers reversed found result after

end

theorem atClosing_cons_iff {token : Token} {rest : List Token} :
    AtClosing (token :: rest) ↔ token = .delimiter ')' := by
  simp [AtClosing]

theorem exists_cons_of_not_atClosing {found : List Token} (unclosed : ¬AtClosing found) :
    ∃ token rest, found = token :: rest ∧ token ≠ .delimiter ')' := by
  cases found with
  | nil => exact absurd (by simp [AtClosing]) unclosed
  | cons token rest =>
      exact ⟨token, rest, rfl, fun closing => unclosed (atClosing_cons_iff.mpr closing)⟩

mutual

/-- An expression uses up its first token, if there is one. -/
theorem Descends.suffix {found result rest} : Descends found result rest →
    ∀ datum, result = .ok datum → rest <:+ found.tail
  | .atEnd, _, _ | .integer _ _, _, _ | .symbol _ _, _, _ => List.suffix_rfl
  | .bad _ _, _, same | .broken _ _, _, same => by cases same
  | .empty _, _, _ => List.tail_suffix _
  | .list _ inside, _, _ =>
      (List.tail_suffix _).trans ((inside.suffix _ rfl).trans (List.tail_suffix _))

theorem Gathers.suffix {reversed found result rest} : Gathers reversed found result rest →
    ∀ datum, result = .ok datum → rest <:+ found.tail
  | .broken _, _, same | .brokenTail _ _, _, same => by cases same
  | .dotted element ending, _, _ =>
      (ending.suffix _ rfl).trans ((List.tail_suffix _).trans
        ((List.suffix_cons _ _).trans (element.suffix _ rfl)))
  | .closed element _, _, _ => element.suffix _ rfl
  | .more element _ _ others, datum, same =>
      (others.suffix datum same).trans ((List.tail_suffix _).trans (element.suffix _ rfl))

end

theorem exists_descends (found : List Token)
    (shorter : ∀ rest : List Token, rest.length < found.length →
      ∃ result after, Gathers [] rest result after) : ∃ result rest, Descends found result rest := by
  cases found with
  | nil => exact ⟨_, _, .atEnd⟩
  | cons token rest =>
      by_cases opening : token = .delimiter '('
      · subst opening
        by_cases closes : AtClosing rest
        · exact ⟨_, _, .empty closes⟩
        · obtain ⟨result, after, inside⟩ := shorter rest (Nat.lt_succ_self _)
          cases result with
          | error error => exact ⟨_, _, .broken closes inside⟩
          | ok datum => exact ⟨_, _, .list closes inside⟩
      · by_cases number : ∃ text, token = .numeric text ∧ text ≠ ['-']
        · obtain ⟨text, rfl, noSign⟩ := number
          cases read : Literal.integer text with
          | error problem => exact ⟨_, _, .bad noSign read⟩
          | ok number => exact ⟨_, _, .integer noSign read⟩
        · exact ⟨_, _, .symbol opening fun text same =>
            not_not.mp fun noSign => number ⟨text, same, noSign⟩⟩

/-- The elements of a list come to an end. Each of them leaves fewer tokens to the next, and to a
list inside it. -/
theorem exists_gathers (reversed : List Datum) (found : List Token) :
    ∃ result rest, Gathers reversed found result rest := by
  induction bound : found.length using Nat.strongRecOn generalizing reversed found with
  | ind count ih =>
      -- The element has as many tokens before it as the list, but a list inside it has fewer.
      obtain ⟨result, rest, element⟩ := exists_descends found fun inner fewer =>
        ih inner.length (by omega) [] inner rfl
      cases result with
      | error error => exact ⟨_, _, .broken element⟩
      | ok datum =>
          have under := (element.suffix datum rfl).length_le
          rw [List.length_tail] at under
          by_cases closes : AtClosing rest
          · exact ⟨_, _, .closed element closes⟩
          · obtain ⟨token, more, rfl, noClosing⟩ := exists_cons_of_not_atClosing closes
            rw [List.length_cons] at under
            by_cases dot : token = .delimiter '.'
            · subst dot
              obtain ⟨ending, after, tail⟩ := exists_descends more fun inner fewer =>
                ih inner.length (by omega) [] inner rfl
              cases ending with
              | error error => exact ⟨_, _, .brokenTail element tail⟩
              | ok tail => exact ⟨_, _, .dotted element tail⟩
            · obtain ⟨ending, after, others⟩ :=
                ih (more.length + 1) (by omega) (datum :: reversed) (token :: more) rfl
              exact ⟨_, _, .more element noClosing dot others⟩

namespace Progress

/-- An expression is expected inside the given lists, and the next token, if there is one, may begin
it. -/
def Faces (progress : Progress) (lists : List OpenList) : List Token → Prop
  | [] => progress = expecting lists
  | token :: _ => progress.Admits lists token

def resumed (lists : List OpenList) (result : Except LiteralError Datum) (rest : List Token) :
    Except ReadError Datum × List Token :=
  match result with
  | .ok datum => ((finish datum lists).feed rest).outcome
  | .error error => (.error (.literal error), rest)

theorem resumed_nil (result : Except LiteralError Datum) (rest : List Token) :
    resumed [] result rest = (result.mapError .literal, rest) := by
  cases result with
  | error error => rfl
  | ok datum =>
      rw [resumed, finish, feed_complete]
      rfl

theorem faces_expecting (lists : List OpenList) (found : List Token) :
    (expecting lists).Faces lists found := by
  cases found with
  | nil => rfl
  | cons token rest => exact .expecting lists token

theorem faces_opened {rest : List Token} (unclosed : ¬AtClosing rest) (lists : List OpenList) :
    (opened lists).Faces (.elements [] :: lists) rest := by
  obtain ⟨token, more, rfl, noClosing⟩ := exists_cons_of_not_atClosing unclosed
  exact .opened lists noClosing

theorem Faces.feed_cons {progress next : Progress} {lists : List OpenList} {token : Token}
    {rest : List Token} (faces : progress.Faces lists (token :: rest))
    (begun : begin lists token = .ok next) : progress.feed (token :: rest) = next.feed rest :=
  Admits.feed_cons faces begun rest

theorem Admits.feed_failed {progress : Progress} {lists : List OpenList} {token : Token}
    {error : LiteralError} (admits : progress.Admits lists token)
    (bad : begin lists token = .error error) (rest : List Token) :
    progress.feed (token :: rest) = .failed error (token :: rest) := by
  rw [← admits.consume] at bad
  cases admits with
  | expecting | opened | holding => simp only [feed, bad]

theorem begin_symbol {token : Token} (noOpening : token ≠ .delimiter '(')
    (noNumber : ∀ text, token = .numeric text → text = ['-']) (lists : List OpenList) :
    begin lists token = .ok (finish (.symbol token.literal) lists) := by
  cases token with
  | word text => rfl
  | numeric text =>
      obtain rfl := noNumber text rfl
      rfl
  | delimiter char => simp [begin]

theorem feed_atClosing {rest : List Token} (closes : AtClosing rest) (lists : List OpenList) :
    ((opened lists).feed rest).outcome = ((finish Datum.nil lists).feed rest.tail).outcome ∧
    ∀ element reversed, ((holding element (.elements reversed) lists).feed rest).outcome =
      ((finish (Datum.ofReversed (element :: reversed) Datum.nil) lists).feed rest.tail).outcome := by
  cases rest with
  | nil =>
      simp only [List.tail_nil, outcome_feed_nil, atEnd_finish]
      exact ⟨rfl, fun _ _ => rfl⟩
  | cons token more =>
      obtain rfl := atClosing_cons_iff.mp closes
      exact ⟨by simp [feed, consume], fun _ _ => by rw [feed_closing, List.tail_cons]⟩

theorem feed_afterTail_tail (datum : Datum) (reversed : List Datum) (lists : List OpenList)
    (rest : List Token) : ((holding datum (.tail reversed) lists).feed rest).outcome =
      ((finish (Datum.ofReversed reversed datum) lists).feed rest.tail).outcome := by
  cases rest with
  | nil =>
      simp only [List.tail_nil, outcome_feed_nil, atEnd_finish]
      rfl
  | cons token more => rw [feed_afterTail, List.tail_cons]

end Progress

mutual

/-- Wherever an expression is expected, feeding the tokens comes to what the descent comes to. -/
theorem Descends.feed_outcome {found result rest} : Descends found result rest →
    ∀ (progress : Progress) lists, progress.Faces lists found →
      (progress.feed found).outcome = Progress.resumed lists result rest
  | .atEnd, progress, lists, faces => by
      obtain rfl : progress = .expecting lists := faces
      rw [Progress.resumed, Progress.outcome_feed_nil, Progress.outcome_feed_nil,
        Progress.atEnd_finish]
      rfl
  | .integer noSign read, _, _, faces => by
      rw [faces.feed_cons (by rw [Progress.begin_numeric noSign, read]), Progress.resumed]
  | .bad noSign read, _, lists, faces => by
      rw [Progress.Admits.feed_failed faces (by rw [Progress.begin_numeric noSign, read])]
      rfl
  | .symbol noOpening noNumber, _, lists, faces => by
      rw [faces.feed_cons (Progress.begin_symbol noOpening noNumber lists), Progress.resumed]
  | .empty closes, _, lists, faces => by
      rw [faces.feed_cons rfl, Progress.resumed, (Progress.feed_atClosing closes lists).1]
  | .list unclosed inside, _, lists, faces => by
      rw [faces.feed_cons rfl]
      exact inside.feed_outcome (.opened lists) lists (Progress.faces_opened unclosed lists)
  | .broken unclosed inside, _, lists, faces => by
      rw [faces.feed_cons rfl]
      exact inside.feed_outcome (.opened lists) lists (Progress.faces_opened unclosed lists)

theorem Gathers.feed_outcome {reversed found result rest} : Gathers reversed found result rest →
    ∀ (progress : Progress) lists, progress.Faces (.elements reversed :: lists) found →
      (progress.feed found).outcome =
        Progress.resumed lists result (if result.isOk then rest.tail else rest)
  | .broken element, progress, lists, faces =>
      element.feed_outcome progress (.elements reversed :: lists) faces
  | @Gathers.dotted _ _ rest after datum tail element ending, progress, lists, faces => by
      have first := element.feed_outcome progress (.elements reversed :: lists) faces
      rw [Progress.resumed, Progress.finish, Progress.feed_dot] at first
      rw [first, ending.feed_outcome _ _ (Progress.faces_expecting _ rest)]
      exact Progress.feed_afterTail_tail tail (datum :: reversed) lists after
  | @Gathers.brokenTail _ _ rest after datum _ element ending, progress, lists, faces => by
      have first := element.feed_outcome progress (.elements reversed :: lists) faces
      rw [Progress.resumed, Progress.finish, Progress.feed_dot] at first
      rw [first, ending.feed_outcome _ _ (Progress.faces_expecting _ rest)]
      rfl
  | @Gathers.closed _ _ _ datum element closes, progress, lists, faces => by
      rw [element.feed_outcome progress (.elements reversed :: lists) faces]
      exact (Progress.feed_atClosing closes lists).2 datum reversed
  | @Gathers.more _ _ _ _ _ datum _ element noClosing noDot others, progress, lists, faces => by
      rw [element.feed_outcome progress (.elements reversed :: lists) faces]
      exact others.feed_outcome _ lists (.holding datum reversed lists noClosing noDot)

end

theorem Descends.feed_start {found rest : List Token} {result : Except LiteralError Datum}
    (descends : Descends found result rest) :
    (Progress.start.feed found).outcome = (result.mapError .literal, rest) := by
  have fed := descends.feed_outcome Progress.start [] (Progress.faces_expecting [] found)
  rw [fed, Progress.resumed_nil]

theorem Descends.unique {found rest after : List Token} {result other : Except LiteralError Datum}
    (descends : Descends found result rest) (also : Descends found other after) :
    other = result ∧ after = rest := by
  have same := also.feed_start.symm.trans descends.feed_start
  rw [Prod.mk.injEq] at same
  refine ⟨?_, same.2⟩
  cases result <;> cases other <;> simpa [Except.mapError] using same.1

theorem readTokens_of_descends {found rest : List Token} {result : Except LiteralError Datum}
    (descends : Descends found result rest) (some : found ≠ []) :
    readTokens found = (result.mapError .literal, rest) := by
  obtain ⟨token, more, rfl⟩ := List.exists_cons_of_ne_nil some
  exact descends.feed_start

/-- What a read comes to with the given tokens to come, of which it leaves some: the end of the input
if there are none, and otherwise what the descent comes to. An expression takes a token at least. -/
structure Reader.Descended (reading : Reading) (found left : List Token) : Prop where
  ended : found = [] → reading.outcome = .error .endOfInput
  descended : found ≠ [] → ∃ result, Descends found result left ∧
    (∀ other after, Descends found other after → other = result ∧ after = left) ∧
    reading.outcome = result.mapError .literal
  used : ∀ datum, reading.outcome = .ok datum → ∃ used, used ≠ [] ∧ found = used ++ left

theorem exists_used_of_suffix_tail {found left : List Token} (some : found ≠ [])
    (suffix : left <:+ found.tail) : ∃ used, used ≠ [] ∧ found = used ++ left := by
  obtain ⟨token, more, rfl⟩ := List.exists_cons_of_ne_nil some
  obtain ⟨used, rfl⟩ := suffix
  exact ⟨token :: used, by simp, rfl⟩

namespace Reader

variable {reader : Reader} {source : LineSource} {all : List Token}

theorem Ahead.descended (ahead : Ahead reader source all) :
    Descended (reader.read source) (reader.toCome source)
      ((reader.read source).reader.toCome (reader.read source).source) := by
  obtain ⟨outcome, after⟩ := ahead.read
  rw [ahead.toCome_eq, after.toCome_eq]
  by_cases none : all = []
  · subst none
    refine ⟨fun _ => outcome, fun some => absurd rfl some, ?_⟩
    intro datum read
    rw [outcome] at read
    cases read
  · obtain ⟨result, rest, descends⟩ := exists_descends all fun inner _ => exists_gathers [] inner
    have read := readTokens_of_descends descends none
    rw [read] at outcome ⊢
    refine ⟨fun ended => absurd ended none, fun _ => ⟨result, descends, fun _ _ => descends.unique,
      outcome⟩, ?_⟩
    intro datum success
    rw [outcome] at success
    cases result with
    | error error => cases success
    | ok value => exact exists_used_of_suffix_tail none (descends.suffix value rfl)

theorem Ahead.exists_yields (ahead : Ahead reader source all) :
    ∃ datums error, Yields reader source datums error ∧ datums.length ≤ all.length := by
  induction bound : all.length using Nat.strongRecOn generalizing reader source all with
  | ind count ih =>
      have descended := ahead.descended
      have after := ahead.read.2
      rw [ahead.toCome_eq, after.toCome_eq] at descended
      cases read : (reader.read source).outcome with
      | error error => exact ⟨[], error, .fails read, Nat.zero_le _⟩
      | ok datum =>
          obtain ⟨used, some, split⟩ := descended.used datum read
          have fewer : (readTokens all).2.length < all.length := by
            have positive := List.length_pos_iff.mpr some
            have lengths := congrArg List.length split
            rw [List.length_append] at lengths
            omega
          obtain ⟨datums, error, more, short⟩ := ih _ (bound ▸ fewer) after rfl
          refine ⟨datum :: datums, error, .reads read more, ?_⟩
          rw [List.length_cons]
          omega

end Reader

namespace LineSource

/-- The text of some bytes as a source, all of it at once or line by line, and the tokens that it has
for a reader. A stream that an empty line divides has those of the lines before. -/
inductive Carries : LineSource → Text.Bytes → List Token → Prop
  | text (bytes : Text.Bytes) :
      Carries (.ofText (Text.decode bytes)) bytes (SecdMachine.tokens (Text.decode bytes))
  | stream (bytes : Text.Bytes) {policy : PromptPolicy} {prompts : Sink} (unchecked : policy ≠ .check)
      (unlimited : prompts.capacity = none)
      (nonempty : ∀ line ∈ splitLines [] bytes, withoutReturns line ≠ []) :
      Carries (.ofStream bytes policy prompts) bytes (SecdMachine.tokens (Text.decode bytes))
  | divided (bytes : Text.Bytes) {policy : PromptPolicy} {prompts : Sink}
      (unchecked : policy ≠ .check) (unlimited : prompts.capacity = none)
      {before after : List Text.Bytes} {empty : Text.Bytes}
      (split : splitLines [] bytes = before ++ empty :: after)
      (nonempty : ∀ line ∈ before, withoutReturns line ≠ []) (divides : withoutReturns empty = []) :
      Carries (.ofStream bytes policy prompts) bytes
        (before.flatMap fun line => SecdMachine.tokens (Text.decode (withoutReturns line)))

variable {source : LineSource} {bytes : Text.Bytes} {found : List Token}

theorem tokens_lines (bytes : Text.Bytes) :
    ((splitLines [] bytes).flatMap fun line =>
      SecdMachine.tokens (Text.decode (withoutReturns line))) =
        SecdMachine.tokens (Text.decode bytes) := by
  rw [tokens_splitLines [] bytes, List.reverse_nil, List.nil_append]

theorem Carries.tokens_prefix (carries : source.Carries bytes found) :
    found <+: SecdMachine.tokens (Text.decode bytes) := by
  cases carries with
  | text | stream => exact List.prefix_rfl
  | divided _ _ _ split _ _ =>
      rw [← tokens_lines, split, List.flatMap_append]
      exact List.prefix_append _ _

theorem ending?_of_line_of_ne_nil {line : Text.Bytes} (nonempty : withoutReturns line ≠ []) :
    ({ line := Text.decode (withoutReturns line) } : Delivery).ending? = none :=
  Delivery.ending?_of_line (mt (Text.decode_eq_nil_iff _).mp nonempty)

theorem Carries.ahead (carries : source.Carries bytes found) (prompt : String) :
    Reader.Ahead { prompt := prompt } source found := by
  cases carries with
  | text => exact ahead_ofText prompt (Text.decode bytes)
  | stream _ unchecked unlimited nonempty =>
      have ahead := @Reader.ahead_of_lines prompt (ofStream bytes _ _) ?_ unchecked unlimited
      · rwa [ofStream, List.flatMap_map, tokens_lines] at ahead
      · intro delivery member
        obtain ⟨line, inside, rfl⟩ := List.mem_map.mp member
        exact ending?_of_line_of_ne_nil (nonempty line inside)
  | @divided _ policy prompts unchecked unlimited before after empty split nonempty divides =>
      have reliable : (ofStream bytes policy prompts).Reliable := by
        refine ⟨fun delivery member failure => ?_, unchecked, unlimited⟩
        obtain ⟨line, _, rfl⟩ := List.mem_map.mp member
        simp [Delivery.ending?]
      have same : (ofStream bytes policy prompts).tokens =
          before.flatMap fun line => SecdMachine.tokens (Text.decode (withoutReturns line)) := by
        have arrives : ∀ line ∈ before, ((fun delivery : Delivery => delivery.ending?.isNone) ∘
            fun line => { line := Text.decode (withoutReturns line) }) line = true := by
          intro line member
          rw [Function.comp_apply, ending?_of_line_of_ne_nil (nonempty line member)]
          rfl
        rw [LineSource.tokens, ofStream, split, List.takeWhile_map,
          List.takeWhile_append_of_pos arrives, List.takeWhile_cons_of_neg, List.append_nil,
          List.flatMap_map]
        rw [Function.comp_apply, divides]
        simp [Delivery.ending?, Text.decode, Text.decodeAfter]
      rw [← same]
      exact .reading (Or.inl ⟨rfl, rfl⟩) reliable

end LineSource

theorem tokens_eq_nil_iff (text : List Char) :
    tokens text = [] ↔ Text.isBlankText text = true := by
  simp only [Text.isBlankText, List.all_eq_true]
  constructor
  · intro none char member
    by_contra visible
    exact tokens_ne_nil_of_solid ⟨char, member, by simpa using visible⟩ none
  · intro blank
    induction text with
    | nil => rfl
    | cons char rest ih =>
        obtain ⟨here, others⟩ := List.forall_mem_cons.mp blank
        rw [tokens_blank here, ih others]

namespace Progress

variable {progress : Progress} {found rest : List Token} {error : LiteralError}

theorem exists_before_of_failed (failed : progress.feed found = .failed error rest) :
    ∃ before further, found = before ++ rest ∧ progress.feed before = .partway further := by
  induction found generalizing progress with
  | nil => cases progress <;> cases failed
  | cons token more ih =>
      cases progress with
      | complete datum => cases failed
      | expecting lists | opened lists | holding datum list lists =>
          simp only [feed] at failed
          split at failed
          next next consumed =>
            obtain ⟨before, further, rfl, fed⟩ := ih failed
            exact ⟨token :: before, further, rfl, by simp only [feed, consumed, fed]⟩
          next =>
            cases failed
            exact ⟨[], _, rfl, rfl⟩

theorem exists_text_of_begin {lists : List OpenList} {token : Token}
    (bad : begin lists token = .error error) :
    ∃ text problem, token = .numeric text ∧ text ≠ ['-'] ∧ Literal.integer text = .error problem ∧
      error = ⟨String.ofList text, problem⟩ := by
  by_cases number : ∃ text, token = .numeric text ∧ text ≠ ['-']
  · obtain ⟨text, rfl, noSign⟩ := number
    rw [begin_numeric noSign] at bad
    split at bad
    next => cases bad
    next problem read =>
      cases bad
      exact ⟨text, problem, rfl, noSign, read, rfl⟩
  · have noNumber : ∀ text, token = .numeric text → text = ['-'] :=
      fun text same => not_not.mp fun noSign => number ⟨text, same, noSign⟩
    by_cases opening : token = .delimiter '('
    · subst opening
      cases bad
    · rw [begin_symbol opening noNumber] at bad
      cases bad

end Progress

theorem readText_eq_endOfInput_iff (text : List Char) :
    readText text = .error .endOfInput ↔ Text.isBlankText text = true := by
  rw [← tokens_eq_nil_iff]
  constructor
  · intro failed
    by_contra some
    obtain ⟨result, outcome⟩ := exists_mapError_eq_outcome (Progress.start.feed (tokens text))
    rw [readText_eq some, outcome] at failed
    cases result <;> cases failed
  · intro none
    have ahead := LineSource.ahead_ofText defaultPrompt text
    rw [none] at ahead
    exact ahead.read.1

/-- A text that is not blank is read as an expression, or has a number that is no integer before its
first expression is complete. -/
theorem readText_cases {text : List Char} (some : tokens text ≠ []) :
    (∃ datum, readText text = .ok datum) ∨
    ∃ before literal after problem progress,
      readText text = .error (.literal ⟨String.ofList literal, problem⟩) ∧
      tokens text = before ++ .numeric literal :: after ∧ literal ≠ ['-'] ∧
      (∀ number, ¬Literal.Decimal literal number) ∧
      Progress.start.feed before = .partway progress := by
  rw [readText_eq some]
  cases fed : Progress.start.feed (tokens text) with
  | complete datum rest => exact Or.inl ⟨datum, rfl⟩
  | partway further => exact Or.inl ⟨further.atEnd, rfl⟩
  | failed error rest =>
      obtain ⟨before, further, split, unfinished⟩ := Progress.exists_before_of_failed fed
      obtain ⟨token, after, rfl, bad⟩ := Progress.exists_bad_of_failed fed
      obtain ⟨literal, problem, rfl, noSign, read, rfl⟩ := Progress.exists_text_of_begin bad
      refine Or.inr ⟨before, literal, after, problem, further, rfl, split, noSign, ?_, unfinished⟩
      intro number decimal
      rw [decimal.integer_eq] at read
      cases read

/-- Reading ends on every input. The descent over the tokens to come ends, in one way, each time, and
gives what the read gives; each expression takes a token at least, so there are no more of them than
tokens before an error. A text is read as the end of the input exactly if it is blank; otherwise as an
expression, unless a number in the first one is no integer of 64 bits. -/
theorem reading_ends (bytes : Text.Bytes) :
    let text := Text.decode bytes
    (∀ (prompt : String) (source : LineSource) (found : List Token), source.Carries bytes found →
      found <+: tokens text ∧
      (∀ reads,
        let before := Reader.afterReads { prompt := prompt } source reads
        let reading := before.1.read before.2
        before.1.toCome before.2 <:+ found ∧
          Reader.Descended reading (before.1.toCome before.2)
            (reading.reader.toCome reading.source)) ∧
      ∃ datums error, Reader.Yields { prompt := prompt } source datums error ∧
        datums.length ≤ found.length) ∧
    (readText text = .error .endOfInput ↔ Text.isBlankText text = true) ∧
    (Text.isBlankText text = false → (∃ datum, readText text = .ok datum) ∨
      ∃ before literal after problem progress,
        readText text = .error (.literal ⟨String.ofList literal, problem⟩) ∧
        tokens text = before ++ .numeric literal :: after ∧ literal ≠ ['-'] ∧
        (∀ number, ¬Literal.Decimal literal number) ∧
        Progress.start.feed before = .partway progress) := by
  intro text
  refine ⟨?_, readText_eq_endOfInput_iff text, ?_⟩
  · intro prompt source found carries
    have ahead := carries.ahead prompt
    refine ⟨carries.tokens_prefix, ?_, ahead.exists_yields⟩
    intro reads before reading
    obtain ⟨left, suffix, still, _⟩ := ahead.afterReads_both ahead reads
    exact ⟨still.toCome_eq.symm ▸ suffix, still.descended⟩
  · intro visible
    apply readText_cases
    rw [Ne, tokens_eq_nil_iff, visible]
    simp

theorem cut_off_texts_are_read :
    let dangling : Text.Bytes := [0x28, 0xFF, 0x20, 0x2E]
    let foreign : Text.Bytes := [0x28, 0xD9, 0xA3]
    Descends (tokens (Text.decode dangling))
      (.ok (.pair (.symbol (String.ofList [Text.replacement])) (.symbol ")"))) [] ∧
    ∃ literal, .numeric literal ∈ tokens (Text.decode foreign) ∧
      ∀ number, ¬Literal.Decimal literal number := by
  intro dangling foreign
  constructor
  · let reading := Reader.read { prompt := "" } (.ofText (Text.decode dangling))
    have read : reading.outcome =
        .ok (.pair (.symbol (String.ofList [Text.replacement])) (.symbol ")")) := by decide +kernel
    have left : reading.reader.toCome reading.source = [] := by decide +kernel
    obtain ⟨reads, _⟩ := reading_ends dangling
    obtain ⟨_, descended⟩ := (reads "" _ _ (.text dangling)).2.1 0
    obtain ⟨result, descends, _, outcome⟩ := descended.descended (by decide)
    have whole := (LineSource.ahead_ofText "" (Text.decode dangling)).toCome_eq
    change Descends (Reader.toCome { prompt := "" } (.ofText (Text.decode dangling))) result
      (reading.reader.toCome reading.source) at descends
    rw [whole, left] at descends
    cases result with
    | error error => cases read.symm.trans outcome
    | ok datum =>
        cases read.symm.trans outcome
        exact descends
  · obtain ⟨_, _, unread⟩ := reading_ends foreign
    have bad : readText (Text.decode foreign) =
        .error (.literal ⟨String.ofList ['\u0663'], .malformed⟩) := by decide +kernel
    rcases unread (by decide +kernel) with
      ⟨datum, read⟩ | ⟨before, literal, after, _, _, _, split, _, none, _⟩
    · cases bad.symm.trans read
    · exact ⟨literal, by rw [split]; simp, none⟩

end SecdMachine
