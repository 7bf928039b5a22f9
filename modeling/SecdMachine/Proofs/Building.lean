import SecdMachine.Proofs.CharacterScan
import SecdMachine.Proofs.Descent

/-!
Building what is read. Expressions and lists are read by functions that call each other and put the
elements together in a store when a list ends. They come to an end on every source, and each call
builds what the reader reads there, from the same lines and up to the same token.
-/

namespace SecdMachine

namespace Store

inductive Loads (store : Store) : List Datum → List Value → Store → Prop
  | nil : Loads store [] [] store
  | cons {datums : List Datum} {values : List Value} {datum : Datum} {value : Value}
      {middle after : Store} (earlier : Loads store datums values middle)
      (here : middle.load datum = (value, after)) :
      Loads store (datum :: datums) (value :: values) after

/-- Joining the elements after all of them have been placed is placing the list. -/
theorem Loads.join {store middle after : Store} {datums : List Datum} {values : List Value}
    {tail : Datum} {last : Value} (loads : store.Loads datums values middle)
    (ending : middle.load tail = (last, after)) :
    store.load (Datum.ofReversed datums tail) = after.consReversed values last := by
  induction loads generalizing tail last after with
  | nil => exact ending
  | @cons datums values datum value before middle earlier here ih =>
      have pair : before.load (.pair datum tail) = after.cons value last := by
        rw [load, here]
        simp only [ending]
      exact ih pair

end Store

namespace Token

theorem Formed.eq_delimiter {token : Token} (formed : token.Formed) {char : Char}
    (alone : tokens [char] = [.delimiter char]) :
    token.literal = String.ofList [char] ↔ token = .delimiter char := by
  constructor
  · intro same
    have chars : token.chars = [char] := String.ofList_injective same
    have whole := formed.tokens_chars
    rw [chars, alone] at whole
    exact (List.singleton_inj.mp whole).symm
  · rintro rfl
    rfl

end Token

namespace Reader

def resume (progress : Progress) (reader : Reader) (source : LineSource) : Reading :=
  match reader.tokens, reader.stage with
  | [], .ended _ => settle reader source progress.atEnd
  | found, _ =>
      continueRead reader.prompt source.policy progress found source.prompts source.pending

variable {prompt : String} {progress next : Progress} {found : List Token} {source : LineSource}

theorem resume_cons (progress : Progress) (prompt : String) (token : Token) (rest : List Token)
    (stage : Stage) (source : LineSource) :
    resume progress ⟨prompt, token :: rest, stage⟩ source =
      continueRead prompt source.policy progress (token :: rest) source.prompts source.pending := by
  cases stage <;> rfl

theorem resume_advance (progress : Progress) (prompt : String) (found : List Token)
    (source : LineSource) :
    resume progress (advance ⟨prompt, found, .reading⟩ source).1
      (advance ⟨prompt, found, .reading⟩ source).2 =
      continueRead prompt source.policy progress found source.prompts source.pending := by
  induction bound : source.pending.length using Nat.strongRecOn generalizing found source with
  | ind size ih =>
      cases found with
      | cons token rest => rw [advance_cons, resume_cons]
      | nil =>
          rw [continueRead_eq_next]
          cases answer : (source.next prompt).1.ending? with
          | some failure =>
              rw [advance_of_ending answer]
              cases progress with
              | complete datum =>
                  rw [Progress.feed_complete]
                  simp only [advance_of_ending answer]
                  rfl
              | expecting | opened | holding => rfl
          | none =>
              have fewer := LineSource.pending_of_arrival answer
              rw [advance_of_arrival answer, ih _ (by omega) _ _ rfl]
              cases progress with
              | complete datum =>
                  rw [continueRead_eq_next, Progress.feed_complete, Progress.feed_complete]
                  simp only [advance_of_arrival answer]
              | expecting | opened | holding => rfl

theorem resume_of_token {token : Token} {rest : List Token}
    (fed : progress.feed (token :: rest) = next.feed rest) :
    resume progress ⟨prompt, token :: rest, .reading⟩ source =
      resume next (pass ⟨prompt, token :: rest, .reading⟩ source).1
        (pass ⟨prompt, token :: rest, .reading⟩ source).2 := by
  rw [pass, List.tail_cons, resume_advance, resume_cons, continueRead_eq_next, fed,
    ← continueRead_eq_next]

theorem resume_at_end (failure : Option SourceError) (same : progress.atEnd = next.atEnd) :
    resume progress ⟨prompt, [], .ended failure⟩ source =
      resume next (pass ⟨prompt, [], .ended failure⟩ source).1
        (pass ⟨prompt, [], .ended failure⟩ source).2 := by
  change settle ⟨prompt, [], .ended failure⟩ source progress.atEnd = _
  rw [same]
  rfl

end Reader

namespace Scanner

open Progress (finish expecting opened holding)

variable {scanner : Scanner} {reader : Reader} {source : LineSource} {store : Store}
  {progress : Progress} {lists : List OpenList} {fuel : Nat} {parsed : Parsed} {kind : Char → Bool}

theorem Stands.literal_eq_iff {char : Char} (stands : scanner.Stands reader source)
    (alone : tokens [char] = [.delimiter char]) :
    scanner.literal = String.ofList [char] ↔
      reader.tokens.head? = some (.delimiter char) ∨ reader.tokens = [] ∧ char = ')' := by
  cases stands with
  | within known formed _ =>
      simp only [literal, known, List.head?_cons, Option.some.injEq, reduceCtorEq, false_and,
        or_false]
      exact formed.eq_delimiter alone
  | spent none _ =>
      simp only [literal, none, List.head?_nil, reduceCtorEq, true_and, false_or]
      constructor
      · intro same
        exact (List.singleton_inj.mp (String.ofList_injective same)).symm
      · rintro rfl
        rfl

theorem Stands.opens_iff (stands : scanner.Stands reader source) :
    scanner.literal = "(" ↔ reader.tokens.head? = some (.delimiter '(') := by
  simpa using @Stands.literal_eq_iff _ _ _ '(' stands rfl

theorem Stands.dots_iff (stands : scanner.Stands reader source) :
    scanner.literal = "." ↔ reader.tokens.head? = some (.delimiter '.') := by
  simpa using @Stands.literal_eq_iff _ _ _ '.' stands rfl

theorem Stands.closes_iff (stands : scanner.Stands reader source) :
    scanner.literal = ")" ↔ AtClosing reader.tokens := by
  have closes := @Stands.literal_eq_iff _ _ _ ')' stands rfl
  rw [show ")" = String.ofList [')'] from rfl, closes]
  cases reader.tokens <;> simp [AtClosing]

def Parsed.passed (parsed : Parsed) : Parsed :=
  match parsed.outcome with
  | .error _ => parsed
  | .ok _ => { parsed with scanner := parsed.scanner.scan }

inductive Expression (fuel : Nat) (scanner : Scanner) (store : Store) : Parsed → Prop
  | empty (opens : scanner.literal = "(") (closes : scanner.scan.literal = ")") :
      Expression fuel scanner store ⟨.ok .nil, scanner.scan.scan, store⟩
  | list {inner : Parsed} (opens : scanner.literal = "(") (unclosed : scanner.scan.literal ≠ ")")
      (inside : list fuel scanner.scan store [] = some inner) :
      Expression fuel scanner store inner.passed
  | integer {text : List Char} {number : Int64} (noOpening : scanner.literal ≠ "(")
      (numeric : scanner.lookahead = some (.numeric text)) (noSign : text ≠ ['-'])
      (read : Literal.integer text = .ok number) :
      Expression fuel scanner store ⟨.ok (.integer number), scanner.scan, store⟩
  | bad {text : List Char} {problem : LiteralProblem} (noOpening : scanner.literal ≠ "(")
      (numeric : scanner.lookahead = some (.numeric text)) (noSign : text ≠ ['-'])
      (read : Literal.integer text = .error problem) :
      Expression fuel scanner store
        ⟨.error (.literal ⟨String.ofList text, problem⟩), scanner, store⟩
  | symbol (noOpening : scanner.literal ≠ "(")
      (noNumber : ∀ text, scanner.lookahead = some (.numeric text) → text = ['-']) :
      Expression fuel scanner store ⟨.ok (.symbol scanner.literal), scanner.scan, store⟩

theorem exp_cases (built : exp (fuel + 1) scanner store = some parsed) :
    Expression fuel scanner store parsed := by
  rw [exp] at built
  split at built
  next opens =>
    simp only at built
    split at built
    next closes =>
      cases built
      exact .empty opens closes
    next unclosed =>
      obtain ⟨⟨outcome, next, after⟩, inside, built⟩ := Option.bind_eq_some_iff.mp built
      cases outcome with
      | error error | ok value =>
          cases built
          exact .list opens unclosed inside
  next noOpening =>
    split at built
    next text numeric =>
      split at built
      next sign =>
        cases built
        refine .symbol noOpening fun other same => ?_
        rw [numeric] at same
        cases same
        exact sign
      next noSign =>
        split at built
        next problem read =>
          cases built
          exact .bad noOpening numeric noSign read
        next number read =>
          cases built
          exact .integer noOpening numeric noSign read
    next other =>
      cases built
      exact .symbol noOpening fun text same => absurd same (other text)

inductive Elements (fuel : Nat) (scanner : Scanner) (store : Store) (items : List Value) :
    Parsed → Prop
  | broken {next : Scanner} {after : Store} {error : ReadError}
      (element : exp fuel scanner store = some ⟨.error error, next, after⟩) :
      Elements fuel scanner store items ⟨.error error, next, after⟩
  | brokenTail {middle next : Scanner} {between after : Store} {value : Value} {error : ReadError}
      (element : exp fuel scanner store = some ⟨.ok value, middle, between⟩)
      (dot : middle.literal = ".")
      (ending : exp fuel middle.scan between = some ⟨.error error, next, after⟩) :
      Elements fuel scanner store items ⟨.error error, next, after⟩
  | dotted {middle next : Scanner} {between after : Store} {value tail : Value}
      (element : exp fuel scanner store = some ⟨.ok value, middle, between⟩)
      (dot : middle.literal = ".")
      (ending : exp fuel middle.scan between = some ⟨.ok tail, next, after⟩) :
      Elements fuel scanner store items
        (Parsed.join ⟨.ok tail, next, after⟩ (value :: items) tail)
  | closed {next : Scanner} {after : Store} {value : Value}
      (element : exp fuel scanner store = some ⟨.ok value, next, after⟩)
      (noDot : next.literal ≠ ".") (closes : next.literal = ")") :
      Elements fuel scanner store items
        (Parsed.join ⟨.ok value, next, after⟩ (value :: items) .nil)
  | more {next : Scanner} {after : Store} {value : Value} {parsed : Parsed}
      (element : exp fuel scanner store = some ⟨.ok value, next, after⟩)
      (noDot : next.literal ≠ ".") (unclosed : next.literal ≠ ")")
      (others : list fuel next after (value :: items) = some parsed) :
      Elements fuel scanner store items parsed

theorem list_cases {items : List Value}
    (built : list (fuel + 1) scanner store items = some parsed) :
    Elements fuel scanner store items parsed := by
  rw [list] at built
  obtain ⟨⟨outcome, next, after⟩, element, built⟩ := Option.bind_eq_some_iff.mp built
  cases outcome with
  | error error =>
      cases built
      exact .broken element
  | ok value =>
      simp only at built
      split at built
      next dot =>
        obtain ⟨⟨outcome, last, atLast⟩, ending, built⟩ := Option.bind_eq_some_iff.mp built
        cases outcome with
        | error error =>
            cases built
            exact .brokenTail element dot ending
        | ok tail =>
            cases built
            exact .dotted element dot ending
      next noDot =>
        split at built
        next closes =>
          cases built
          exact .closed element noDot closes
        next unclosed => exact .more element noDot unclosed built

/-- What has come of an expression inside the given lists. It has been built in the store, and the
read goes on after it; or the read has failed. -/
inductive Builds (reading : Reader.Reading) (lists : List OpenList) (store : Store) : Parsed → Prop
  | value {datum : Datum} {value : Value} {after : Store} {next : Scanner} {reader : Reader}
      {source : LineSource} (loads : store.load datum = (value, after))
      (stands : next.Stands reader source)
      (resumes : reading = reader.resume (finish datum lists) source) :
      Builds reading lists store ⟨.ok value, next, after⟩
  | error {error : ReadError} {after : Store} {next : Scanner} {reader : Reader}
      {source : LineSource} (stands : next.Stands reader source)
      (fails : reading = ⟨.error error, reader, source⟩) :
      Builds reading lists store ⟨.error error, next, after⟩

def ExpBuilds (fuel : Nat) : Prop :=
  ∀ {scanner reader source store parsed progress lists}, scanner.Stands reader source →
    Progress.Faces progress lists reader.tokens → exp fuel scanner store = some parsed →
    Builds (reader.resume progress source) lists store parsed

def ListBuilds (fuel : Nat) : Prop :=
  ∀ {scanner reader source start store parsed progress lists datums items},
    scanner.Stands reader source → Store.Loads start datums items store →
    Progress.Faces progress (.elements datums :: lists) reader.tokens →
    list fuel scanner store items = some parsed →
    Builds (reader.resume progress source) lists start parsed.passed

theorem Stands.tokens_cons (stands : scanner.Stands reader source) {token : Token}
    (first : reader.tokens.head? = some token) :
    ∃ prompt rest, reader = ⟨prompt, token :: rest, .reading⟩ := by
  cases stands with
  | within known formed within =>
      cases first
      exact ⟨_, _, rfl⟩
  | spent => cases first

theorem Stands.resume_closing (stands : scanner.Stands reader source)
    (closes : AtClosing reader.tokens) {datum : Datum} {next : Progress}
    (atEnd : next.atEnd = Progress.closeAll datum lists)
    (closing : ∀ rest, next.feed (.delimiter ')' :: rest) = (finish datum lists).feed rest) :
    reader.resume next source =
      (reader.pass source).1.resume (finish datum lists) (reader.pass source).2 := by
  cases stands with
  | within known formed within =>
      obtain rfl := atClosing_cons_iff.mp closes
      exact Reader.resume_of_token (closing _)
  | spent => exact Reader.resume_at_end _ (atEnd.trans (Progress.atEnd_finish datum lists).symm)

theorem Stands.resume_tail (stands : scanner.Stands reader source) (datum : Datum)
    (reversed : List Datum) (lists : List OpenList) :
    reader.resume (holding datum (.tail reversed) lists) source =
      (reader.pass source).1.resume (finish (Datum.ofReversed reversed datum) lists)
        (reader.pass source).2 := by
  cases stands with
  | within known formed within =>
      exact Reader.resume_of_token (Progress.feed_afterTail datum reversed lists _ _)
  | spent => exact Reader.resume_at_end _ (Progress.atEnd_finish _ lists).symm

theorem Stands.resume_dot (stands : scanner.Stands reader source) (dot : scanner.literal = ".")
    (datum : Datum) (reversed : List Datum) (lists : List OpenList) :
    reader.resume (finish datum (.elements reversed :: lists)) source =
      (reader.pass source).1.resume (expecting (.tail (datum :: reversed) :: lists))
        (reader.pass source).2 := by
  obtain ⟨prompt, rest, rfl⟩ := stands.tokens_cons (stands.dots_iff.mp dot)
  exact Reader.resume_of_token (Progress.feed_dot ..)

theorem Stands.resume_begin (stands : scanner.Stands reader source) {token : Token}
    (first : reader.tokens.head? = some token) {next : Progress}
    (faces : progress.Faces lists reader.tokens) (begun : Progress.begin lists token = .ok next) :
    reader.resume progress source =
      (reader.pass source).1.resume next (reader.pass source).2 := by
  obtain ⟨prompt, rest, rfl⟩ := stands.tokens_cons first
  exact Reader.resume_of_token (faces.feed_cons begun)

theorem Stands.first_token (stands : scanner.Stands reader source) {token : Token}
    (known : scanner.lookahead = some token) : reader.tokens.head? = some token := by
  cases stands with
  | within same => exact same.symm.trans known
  | spent none => cases none.symm.trans known

theorem expBuilds_succ (inner : ListBuilds fuel) : ExpBuilds (fuel + 1) := by
  intro scanner reader source store parsed progress lists stands faces built
  cases exp_cases built with
  | empty opens closes =>
      have first := stands.opens_iff.mp opens
      rw [stands.resume_begin first faces rfl,
        stands.scan.resume_closing (stands.scan.closes_iff.mp closes) rfl fun _ => rfl]
      exact .value rfl stands.scan.scan rfl
  | list opens unclosed inside =>
      have first := stands.opens_iff.mp opens
      rw [stands.resume_begin first faces rfl]
      exact inner stands.scan .nil
        (Progress.faces_opened (mt stands.scan.closes_iff.mpr unclosed) lists) inside
  | integer noOpening numeric noSign read =>
      have begun := Progress.begin_numeric noSign lists
      rw [read] at begun
      rw [stands.resume_begin (stands.first_token numeric) faces begun]
      exact .value rfl stands.scan rfl
  | bad noOpening numeric noSign read =>
      have bad := Progress.begin_numeric noSign lists
      rw [read] at bad
      obtain ⟨prompt, rest, rfl⟩ := stands.tokens_cons (stands.first_token numeric)
      refine .error stands ?_
      rw [Reader.resume_cons, Reader.continueRead_eq_next, Progress.Admits.feed_failed faces bad]
  | symbol noOpening noNumber =>
      have notOpening := mt stands.opens_iff.mpr noOpening
      refine .value (show store.load (.symbol scanner.literal) = _ from rfl) stands.scan ?_
      cases stands with
      | within known formed within =>
          have begun := Progress.begin_symbol (fun same => notOpening (congrArg some same))
            (fun text same => noNumber text (known.trans (congrArg some same))) lists
          rw [literal, known]
          exact Reader.resume_of_token (Progress.Faces.feed_cons faces begun)
      | spent none spent =>
          obtain rfl : progress = .expecting lists := faces
          rw [literal, none]
          exact Reader.resume_at_end _ (Progress.atEnd_finish _ lists).symm

theorem builds_join {reading : Reader.Reading} {start after : Store} {whole : Datum}
    {items : List Value} {tail : Value} {outcome : Except ReadError Value}
    (loads : start.load whole = after.consReversed items tail)
    (stands : scanner.Stands reader source)
    (resumes : reading =
      (reader.pass source).1.resume (finish whole lists) (reader.pass source).2) :
    Builds reading lists start (Parsed.join ⟨outcome, scanner, after⟩ items tail).passed :=
  .value (loads.trans rfl) stands.scan resumes

theorem listBuilds_succ (elements : ExpBuilds fuel) (rest : ListBuilds fuel) :
    ListBuilds (fuel + 1) := by
  intro scanner reader source start store parsed progress lists datums items stands loads faces built
  cases list_cases built with
  | broken element =>
      cases elements stands faces element with
      | error stands fails => exact .error stands fails
  | brokenTail element dot ending =>
      cases elements stands faces element with
      | value here stands resumes =>
          rw [resumes, stands.resume_dot dot]
          cases elements stands.scan (Progress.faces_expecting _ _) ending with
          | error stands fails => exact .error stands fails
  | dotted element dot ending =>
      cases elements stands faces element with
      | value here stands resumes =>
          rw [resumes, stands.resume_dot dot]
          cases elements stands.scan (Progress.faces_expecting _ _) ending with
          | value last stands resumes =>
              rw [resumes]
              exact builds_join ((loads.cons here).join last) stands (stands.resume_tail _ _ lists)
  | closed element noDot closes =>
      cases elements stands faces element with
      | @value datum _ _ _ _ _ here stands resumes =>
          rw [resumes]
          exact builds_join ((loads.cons here).join rfl) stands
            (stands.resume_closing (stands.closes_iff.mp closes) rfl
              fun rest => Progress.feed_closing ..)
  | more element noDot unclosed others =>
      cases elements stands faces element with
      | @value datum _ _ _ between _ here stands resumes =>
          rw [resumes]
          refine rest stands (loads.cons here) ?_ others
          obtain ⟨token, more, found, noClosing⟩ :=
            exists_cons_of_not_atClosing (mt stands.closes_iff.mpr unclosed)
          have notDot := mt stands.dots_iff.mpr noDot
          rw [found] at notDot ⊢
          exact .holding datum datums lists noClosing fun same => notDot (congrArg some same)

theorem builds (fuel : Nat) : ExpBuilds fuel ∧ ListBuilds fuel := by
  induction fuel with
  | zero =>
      constructor
      · intro _ _ _ _ _ _ _ _ _ built
        cases built
      · intro _ _ _ _ _ _ _ _ _ _ _ _ _ built
        cases built
  | succ fuel ih => exact ⟨expBuilds_succ ih.2, listBuilds_succ ih.1 ih.2⟩

theorem Expression.exp_eq (ways : Expression fuel scanner store parsed) :
    exp (fuel + 1) scanner store = some parsed := by
  rw [exp]
  cases ways with
  | empty opens closes => simp only [if_pos opens, if_pos closes]
  | @list inner opens unclosed inside =>
      obtain ⟨outcome, next, after⟩ := inner
      simp only [if_pos opens, if_neg unclosed, inside]
      cases outcome <;> rfl
  | integer noOpening numeric noSign read | bad noOpening numeric noSign read =>
      simp only [if_neg noOpening, numeric, if_neg noSign, read]
  | symbol noOpening noNumber =>
      simp only [if_neg noOpening]
      split
      next text numeric => rw [if_pos (noNumber text numeric)]
      next => rfl

theorem Elements.list_eq {items : List Value} (ways : Elements fuel scanner store items parsed) :
    list (fuel + 1) scanner store items = some parsed := by
  rw [list]
  cases ways with
  | broken element => simp [element]
  | brokenTail element dot ending | dotted element dot ending => simp [element, dot, ending]
  | closed element noDot closes => simp [element, closes]
  | more element noDot unclosed others => simp [element, noDot, unclosed, others]

theorem remaining_collect_le (kind : Char → Bool) (scanner : Scanner) :
    (scanner.collect kind).2.remaining ≤ scanner.remaining := by
  induction bound : scanner.remaining using Nat.strongRecOn generalizing scanner with
  | ind size ih =>
      cases here : scanner.char with
      | none =>
          rw [collect_of_stop (by simp [here]), bound]
      | some char =>
          have less := remaining_readChar_lt here
          by_cases goesOn : kind char = true
          · rw [collect_of_kind here goesOn]
            exact (ih _ (bound ▸ less) scanner.readChar rfl).trans (Nat.le_of_lt (bound ▸ less))
          · rw [collect_of_stop (by simpa [here] using goesOn), bound]

theorem remaining_skip (scanner : Scanner) :
    (scanner.collect kind).2 = scanner ∨
      (scanner.collect kind).2.remaining < scanner.remaining := by
  cases here : scanner.char with
  | none => exact Or.inl (by rw [collect_of_stop (by simp [here])])
  | some char =>
      by_cases goesOn : kind char = true
      · rw [collect_of_kind here goesOn]
        exact Or.inr (Nat.lt_of_le_of_lt (remaining_collect_le _ _) (remaining_readChar_lt here))
      · exact Or.inl (by rw [collect_of_stop (by simpa [here] using goesOn)])

theorem remaining_nextToken_lt {char : Char} (here : scanner.char = some char) :
    scanner.nextToken.2.remaining < scanner.remaining := by
  have skipped := @remaining_skip Text.isBlank scanner
  simp only [nextToken]
  generalize (scanner.collect Text.isBlank).2 = begun at skipped
  cases current : begun.char with
  | none =>
      rcases skipped with rfl | fewer
      · cases current.symm.trans here
      · exact fewer
  | some first =>
      have under : begun.remaining ≤ scanner.remaining := by
        rcases skipped with rfl | fewer
        · exact Nat.le_refl _
        · exact Nat.le_of_lt fewer
      have moves := Nat.lt_of_lt_of_le (remaining_readChar_lt current) under
      have digits := remaining_collect_le Text.isDigit begun.readChar
      have letters := remaining_collect_le Token.continuesWord begun.readChar
      simp only
      split
      · exact Nat.lt_of_le_of_lt digits moves
      · split
        · exact Nat.lt_of_le_of_lt letters moves
        · exact moves

/-- A scan moves on unless the input is over. -/
theorem scan_cases (scanner : Scanner) :
    scanner.scan.remaining < scanner.remaining ∨
      scanner.scan.lookahead = none ∧ scanner.scan.remaining = scanner.remaining := by
  cases here : scanner.char with
  | none => exact Or.inr (by rw [scan_of_no_char here]; exact ⟨rfl, rfl⟩)
  | some char => exact Or.inl (remaining_nextToken_lt here)

def weight (scanner : Scanner) : Nat :=
  2 * scanner.remaining + scanner.lookahead.isSome.toNat

theorem weight_scan_cases (scanner : Scanner) :
    scanner.scan.weight < scanner.weight ∨
      scanner.scan.lookahead = none ∧ scanner.scan.weight ≤ scanner.weight := by
  have small : scanner.scan.lookahead.isSome.toNat ≤ 1 := Bool.toNat_le _
  rcases scanner.scan_cases with fewer | ⟨none, same⟩
  · left
    simp only [weight]
    omega
  · right
    refine ⟨none, ?_⟩
    simp [weight, none, same]

theorem weight_scan_le (scanner : Scanner) : scanner.scan.weight ≤ scanner.weight := by
  rcases scanner.weight_scan_cases with less | ⟨_, same⟩
  · exact Nat.le_of_lt less
  · exact same

theorem weight_scan_lt {token : Token} (known : scanner.lookahead = some token) :
    scanner.scan.weight < scanner.weight := by
  rcases scanner.scan_cases with fewer | ⟨none, same⟩
  · have small : scanner.scan.lookahead.isSome.toNat ≤ 1 := Bool.toNat_le _
    simp only [weight]
    omega
  · simp [weight, none, same, known]

theorem exists_lookahead_of_literal (unclosed : scanner.literal ≠ ")") :
    ∃ token, scanner.lookahead = some token := by
  cases known : scanner.lookahead with
  | none => exact absurd (by simp [literal, known]) unclosed
  | some token => exact ⟨token, rfl⟩

structure Uses (scanner : Scanner) (parsed : Parsed) : Prop where
  weight_le : parsed.scanner.weight ≤ scanner.weight
  used : ∀ value, parsed.outcome = .ok value →
    parsed.scanner.weight < scanner.weight ∨ parsed.scanner.lookahead = none

theorem uses_scan (scanner : Scanner) (outcome : Except ReadError Value) (store : Store) :
    Uses scanner ⟨outcome, scanner.scan, store⟩ :=
  ⟨scanner.weight_scan_le, fun _ _ => scanner.weight_scan_cases.imp_right And.left⟩

theorem uses_of_lt (less : parsed.scanner.weight < scanner.weight) : Uses scanner parsed :=
  ⟨Nat.le_of_lt less, fun _ _ => Or.inl less⟩

theorem weight_passed_le (parsed : Parsed) :
    parsed.passed.scanner.weight ≤ parsed.scanner.weight := by
  rw [Parsed.passed]
  split
  · exact Nat.le_refl _
  · exact parsed.scanner.weight_scan_le

def ExpEnds (fuel : Nat) : Prop :=
  ∀ (scanner : Scanner) (store : Store), 2 * scanner.weight + 1 ≤ fuel →
    ∃ parsed, exp fuel scanner store = some parsed ∧ Uses scanner parsed

def ListEnds (fuel : Nat) : Prop :=
  ∀ (scanner : Scanner) (store : Store) (items : List Value), 2 * scanner.weight + 2 ≤ fuel →
    ∃ parsed, list fuel scanner store items = some parsed ∧
      parsed.scanner.weight ≤ scanner.weight

theorem expEnds_succ (inner : ListEnds fuel) : ExpEnds (fuel + 1) := by
  intro scanner store enough
  by_cases opens : scanner.literal = "("
  · obtain ⟨token, known⟩ := exists_lookahead_of_literal (by simp [opens] : scanner.literal ≠ ")")
    have less := weight_scan_lt known
    by_cases closes : scanner.scan.literal = ")"
    · refine ⟨_, (Expression.empty opens closes).exp_eq, uses_of_lt ?_⟩
      exact Nat.lt_of_le_of_lt scanner.scan.weight_scan_le less
    · obtain ⟨parsed, inside, under⟩ := inner scanner.scan store [] (by omega)
      refine ⟨_, (Expression.list opens closes inside).exp_eq, uses_of_lt ?_⟩
      exact Nat.lt_of_le_of_lt ((weight_passed_le parsed).trans under) less
  · by_cases number : ∃ text, scanner.lookahead = some (.numeric text) ∧ text ≠ ['-']
    · obtain ⟨text, numeric, noSign⟩ := number
      cases read : Literal.integer text with
      | ok number =>
          exact ⟨_, (Expression.integer opens numeric noSign read).exp_eq, uses_scan ..⟩
      | error problem =>
          exact ⟨_, (Expression.bad opens numeric noSign read).exp_eq, Nat.le_refl _, by simp⟩
    · have noNumber : ∀ text, scanner.lookahead = some (.numeric text) → text = ['-'] :=
        fun text numeric => not_not.mp fun noSign => number ⟨text, numeric, noSign⟩
      exact ⟨_, (Expression.symbol opens noNumber).exp_eq, uses_scan ..⟩

theorem listEnds_succ (elements : ExpEnds fuel) (rest : ListEnds fuel) : ListEnds (fuel + 1) := by
  intro scanner store items enough
  obtain ⟨⟨outcome, next, after⟩, element, uses⟩ := elements scanner store (by omega)
  have under : next.weight ≤ scanner.weight := uses.weight_le
  cases outcome with
  | error error => exact ⟨_, (Elements.broken element).list_eq, under⟩
  | ok value =>
      by_cases dot : next.literal = "."
      · have passed := next.weight_scan_le
        obtain ⟨⟨outcome, last, atLast⟩, ending, uses⟩ := elements next.scan after (by omega)
        have further : last.weight ≤ scanner.weight := uses.weight_le.trans (passed.trans under)
        cases outcome with
        | error error => exact ⟨_, (Elements.brokenTail element dot ending).list_eq, further⟩
        | ok tail => exact ⟨_, (Elements.dotted element dot ending).list_eq, further⟩
      · by_cases closes : next.literal = ")"
        · exact ⟨_, (Elements.closed element dot closes).list_eq, under⟩
        · -- There is a token left, so the element has used up one.
          obtain ⟨token, known⟩ := exists_lookahead_of_literal closes
          have less : next.weight < scanner.weight :=
            (uses.used value rfl).resolve_right fun none => by cases known.symm.trans none
          obtain ⟨parsed, others, further⟩ := rest next after (value :: items) (by omega)
          exact ⟨_, (Elements.more element dot closes others).list_eq, further.trans under⟩

theorem ends (fuel : Nat) : ExpEnds fuel ∧ ListEnds fuel := by
  induction fuel with
  | zero =>
      constructor
      · intro _ _ enough
        omega
      · intro _ _ _ enough
        omega
  | succ fuel ih => exact ⟨expEnds_succ ih.2, listEnds_succ ih.1 ih.2⟩

/-- A scanner that follows a reader: it stands where the reader stands, or neither has begun. -/
inductive Follows (scanner : Scanner) : Reader → LineSource → Prop
  | new {prompt : String} {source : LineSource}
      (new : scanner = { prompt := prompt, source := source }) :
      Follows scanner { prompt := prompt } source
  | stands {reader : Reader} {source : LineSource} (stands : scanner.Stands reader source) :
      Follows scanner reader source

theorem Stands.is_primed (stands : scanner.Stands reader source) : scanner.primed = true := by
  cases stands with
  | within _ _ within => exact within.primed
  | spent _ spent => exact spent.primed

theorem Stands.advance_eq (stands : scanner.Stands reader source) :
    reader.advance source = (reader, source) := by
  cases stands with
  | within => exact Reader.advance_cons ..
  | spent => rfl

theorem Follows.prime (follows : scanner.Follows reader source) :
    scanner.prime.Stands (reader.advance source).1 (reader.advance source).2 ∧
      scanner.prime.weight ≤ scanner.weight := by
  cases follows with
  | stands stands =>
      rw [Scanner.prime, if_pos stands.is_primed, stands.advance_eq]
      exact ⟨stands, Nat.le_refl _⟩
  | @new prompt source fresh =>
      subst fresh
      -- The blank that a new scanner stands at is like the one that ends a line.
      let primed : Scanner := { prompt := prompt, source := source, primed := true }
      have within : primed.Within prompt source [] := ⟨rfl, rfl, rfl, rfl, rfl, rfl, rfl⟩
      have less : primed.readChar.remaining < primed.remaining :=
        remaining_readChar_lt (rfl : primed.char = some ' ')
      constructor
      · have scanned := within.scan
        rwa [scan_of_skip within.skip_end] at scanned
      · have small : primed.readChar.lookahead.isSome.toNat ≤ 1 := Bool.toNat_le _
        refine (weight_scan_le primed.readChar).trans ?_
        change 2 * primed.readChar.remaining + _ ≤ 2 * primed.remaining + 0
        omega

def Parsed.Gives (parsed : Parsed) (store : Store) : Except ReadError Datum → Prop
  | .ok datum => parsed.outcome = .ok (store.load datum).1 ∧ parsed.store = (store.load datum).2
  | .error error => parsed.outcome = .error error

theorem read_of_known {first : Reader} {next : LineSource}
    (moved : reader.advance source = (first, next)) (known : first.tokens ≠ []) :
    reader.read source = first.resume (expecting []) next := by
  obtain ⟨prompt, found, stage⟩ := first
  obtain ⟨token, rest, rfl⟩ := List.exists_cons_of_ne_nil known
  rw [Reader.read, moved, Reader.resume_cons]
  rfl

theorem Stands.resume_complete (stands : scanner.Stands reader source) (datum : Datum) :
    reader.resume (.complete datum) source =
      ⟨match scanner.failure with
        | some failure => .error (.source failure)
        | none => .ok datum, reader, source⟩ := by
  cases stands with
  | within known formed within =>
      rw [Reader.resume_cons, Reader.continueRead_eq_next, Progress.feed_complete, within.sound]
      simp only [Reader.advance_cons]
      rfl
  | @spent _ _ failure none spent =>
      change Reader.settle _ _ datum = _
      rw [spent.failure, Reader.settle]
      cases failure <;> rfl

/-- A call of `getExp` is a read. The scanner follows the reader from then on too. -/
theorem Follows.getExp (follows : scanner.Follows reader source) (store : Store)
    (enough : 2 * scanner.weight + 1 ≤ fuel) :
    ∃ parsed, scanner.getExp fuel store = some parsed ∧
      parsed.Gives store (reader.read source).outcome ∧
      parsed.scanner.Stands (reader.read source).reader (reader.read source).source ∧
      parsed.scanner.weight ≤ scanner.weight := by
  obtain ⟨stands, under⟩ := follows.prime
  rw [Scanner.getExp]
  generalize scanner.prime = primed at stands under ⊢
  cases moved : reader.advance source with
  | mk first next =>
      rw [moved] at stands
      simp only at stands
      cases stands with
      | @spent _ _ failure none spent =>
          rw [Reader.read, moved]
          simp only [none, spent.failure]
          cases failure with
          | none => exact ⟨_, rfl, rfl, .spent none spent, under⟩
          | some problem => exact ⟨_, rfl, rfl, .spent none spent, under⟩
      | @within _ _ text token known formed within =>
          have here := Stands.within known formed within
          rw [read_of_known moved (by simp)]
          obtain ⟨⟨outcome, after, built⟩, result, uses⟩ := (ends fuel).1 primed store (by omega)
          have later : after.weight ≤ scanner.weight := uses.weight_le.trans under
          have builds := (builds fuel).1 here (Progress.faces_expecting [] _) result
          simp only [known, result, Option.bind_eq_bind, Option.bind_some]
          generalize Reader.resume _ _ _ = reading at builds
          cases builds with
          | error stands fails =>
              subst fails
              exact ⟨_, rfl, rfl, stands, later⟩
          | value loads stands resumes =>
              rw [Progress.finish, stands.resume_complete] at resumes
              subst resumes
              cases failed : after.failure with
              | none =>
                  refine ⟨_, rfl, ?_, stands, later⟩
                  simp [Parsed.Gives, loads]
              | some problem => exact ⟨_, rfl, rfl, stands, later⟩

def afterExps (fuel : Nat) (scanner : Scanner) (store : Store) : Nat → Option (Scanner × Store)
  | 0 => some (scanner, store)
  | calls + 1 => do
      let (scanner, store) ← afterExps fuel scanner store calls
      let parsed ← scanner.getExp fuel store
      return (parsed.scanner, parsed.store)

/-- Call after call, a scanner builds in the store what a reader reads from the same source, with
the same errors. The two ask for the same lines, and know the same token after each call. -/
theorem expressions_are_built (prompt : String) (source : LineSource) (start : Store)
    (enough : 2 * weight { prompt := prompt, source := source } + 1 ≤ fuel) (calls : Nat) :
    let scanner : Scanner := { prompt := prompt, source := source }
    let reading := Reader.nextRead { prompt := prompt } source calls
    ∃ before store parsed, scanner.afterExps fuel start calls = some (before, store) ∧
      before.getExp fuel store = some parsed ∧ parsed.Gives store reading.outcome ∧
      parsed.scanner.Stands reading.reader reading.source := by
  intro scanner reading
  change 2 * scanner.weight + 1 ≤ fuel at enough
  have follows : ∃ before store, scanner.afterExps fuel start calls = some (before, store) ∧
      before.Follows (Reader.afterReads { prompt := prompt } source calls).1
        (Reader.afterReads { prompt := prompt } source calls).2 ∧
      2 * before.weight + 1 ≤ fuel := by
    clear reading
    induction calls with
    | zero => exact ⟨scanner, start, rfl, .new rfl, enough⟩
    | succ calls ih =>
        obtain ⟨before, store, ran, follows, still⟩ := ih
        obtain ⟨parsed, built, _, stands, under⟩ := follows.getExp store still
        refine ⟨parsed.scanner, parsed.store, ?_, .stands stands, by omega⟩
        simp [afterExps, ran, built]
  obtain ⟨before, store, ran, follows, still⟩ := follows
  obtain ⟨parsed, built, gives, stands, _⟩ := follows.getExp store still
  exact ⟨before, store, parsed, ran, built, gives, stands⟩

end Scanner

end SecdMachine
