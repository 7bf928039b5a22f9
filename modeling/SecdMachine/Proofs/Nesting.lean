import SecdMachine.Proofs.Lookahead

/-!
Parentheses and the tokens that a list takes. A list that is read ends at the parenthesis that
closes it, as long as the expression after each dot is a proper one and the only one: a token that
stands in the place of its closing parenthesis is passed over unseen.
-/

namespace SecdMachine

namespace Token

def turn : Token → Int
  | delimiter '(' => 1
  | delimiter ')' => -1
  | _ => 0

theorem turn_eq_zero {token : Token} (noOpening : token ≠ delimiter '(')
    (noClosing : token ≠ delimiter ')') : token.turn = 0 := by
  unfold turn
  split
  next => exact absurd rfl noOpening
  next => exact absurd rfl noClosing
  next => rfl

theorem eq_closing_of_turn {token : Token} (falls : token.turn < 0) : token = delimiter ')' := by
  unfold turn at falls
  split at falls
  next => omega
  next => rfl
  next => omega

end Token

def nesting : List Token → Int
  | [] => 0
  | token :: rest => token.turn + nesting rest

theorem nesting_append (left right : List Token) :
    nesting (left ++ right) = nesting left + nesting right := by
  induction left with
  | nil => simp [nesting]
  | cons token left ih =>
      simp only [List.cons_append, nesting, ih]
      omega

structure Enclosed (found : List Token) : Prop where
  opens : found.head? = some (.delimiter '(')
  closes : found.getLast? = some (.delimiter ')')
  inside : ∀ part, part <+: found → part ≠ [] → part ≠ found → 0 < nesting part
  balanced : nesting found = 0

structure Closes (level : Int) (taken : List Token) : Prop where
  nonempty : taken ≠ []
  inside : ∀ part, part <+: taken → part ≠ [] → part ≠ taken → 0 < level + nesting part
  balanced : level + nesting taken = 0

theorem closes_singleton {level : Int} {token : Token} (last : level + token.turn = 0) :
    Closes level [token] := by
  refine ⟨by simp, ?_, by simpa [nesting] using last⟩
  intro part within some proper
  rcases List.prefix_cons_iff.mp within with none | ⟨left, same, under⟩
  · exact absurd none some
  · rw [List.prefix_nil.mp under] at same
    exact absurd same proper

theorem Closes.cons {level : Int} {token : Token} {taken : List Token}
    (closes : Closes (level + token.turn) taken) (positive : 0 < level + token.turn) :
    Closes level (token :: taken) := by
  obtain ⟨_, inside, balanced⟩ := closes
  refine ⟨by simp, ?_, by rw [nesting]; omega⟩
  intro part within some proper
  rcases List.prefix_cons_iff.mp within with none | ⟨left, rfl, under⟩
  · exact absurd none some
  · rw [nesting]
    by_cases single : left = []
    · rw [single, nesting]
      omega
    · have above := inside left under single fun equal => proper (by rw [equal])
      omega

theorem Closes.enclosed {found : List Token} (closes : Closes 0 found)
    (opens : found.head? = some (.delimiter '(')) : Enclosed found := by
  obtain ⟨_, inside, balanced⟩ := closes
  simp only [Int.zero_add] at inside balanced
  refine ⟨opens, ?_, inside, balanced⟩
  obtain ⟨rest, rfl⟩ := List.head?_eq_some_iff.mp opens
  rcases List.eq_nil_or_concat rest with rfl | ⟨inner, last, rfl⟩
  · simp [nesting, Token.turn] at balanced
  · rw [List.concat_eq_append] at inside balanced ⊢
    have above := inside (.delimiter '(' :: inner) ⟨[last], by simp⟩ (by simp) (by simp)
    have falls : last.turn < 0 := by
      simp only [nesting_append, nesting] at above balanced
      omega
    rw [Token.eq_closing_of_turn falls, ← List.cons_append, List.getLast?_concat]

namespace Progress

def depth : Progress → Int
  | expecting lists => lists.length
  | opened lists => lists.length + 1
  | holding _ _ lists => lists.length + 1
  | complete _ => 0

/-- A token that the reader takes for something else than it is: a closing parenthesis for an
expression, or any other token for the closing parenthesis after a tail. -/
def strays (progress : Progress) (token : Token) : Bool :=
  match progress with
  | expecting _ => token = .delimiter ')'
  | holding _ (.tail _) _ => token ≠ .delimiter ')'
  | _ => false

def tidy (progress : Progress) : List Token → Bool
  | [] => true
  | token :: rest =>
      match progress with
      | complete _ => true
      | unfinished =>
          !unfinished.strays token &&
            match unfinished.consume token with
            | .ok next => next.tidy rest
            | .error _ => true

theorem depth_finish (datum : Datum) (lists : List OpenList) :
    (finish datum lists).depth = lists.length := by
  cases lists <;> simp [finish, depth]

theorem begin_cases {lists : List OpenList} {token : Token} {next : Progress}
    (begun : begin lists token = .ok next) :
    token = .delimiter '(' ∧ next = opened lists ∨
      token ≠ .delimiter '(' ∧ ∃ datum, next = finish datum lists := by
  unfold begin at begun
  split at begun
  next =>
    cases begun
    exact Or.inl ⟨rfl, rfl⟩
  next =>
    cases begun
    exact Or.inr ⟨by simp, _, rfl⟩
  next =>
    split at begun
    next =>
      cases begun
      exact Or.inr ⟨by simp, _, rfl⟩
    next => cases begun
  next noOpening _ _ =>
    cases begun
    exact Or.inr ⟨noOpening, _, rfl⟩

/-- A token begins an expression, closes a list, or announces a tail, and it is for what it is taken
unless it goes astray. -/
theorem consume_cases {progress next : Progress} {token : Token}
    (unfinished : ∀ datum, progress ≠ complete datum)
    (consumed : progress.consume token = .ok next) :
    (∃ lists, begin lists token = .ok next ∧ progress.depth = lists.length ∧
      (token = .delimiter ')' → progress.strays token = true)) ∨
    (∃ datum lists, next = finish datum lists ∧ progress.depth = lists.length + 1 ∧
      (token ≠ .delimiter ')' → progress.strays token = true)) ∨
    (∃ list lists, next = expecting (list :: lists) ∧ progress.depth = lists.length + 1 ∧
      token = .delimiter '.') := by
  cases progress with
  | complete datum => exact absurd rfl (unfinished datum)
  | expecting lists => exact Or.inl ⟨lists, consumed, rfl, by simp [strays]⟩
  | opened lists =>
      simp only [consume] at consumed
      split at consumed
      next closing =>
        cases consumed
        exact Or.inr (Or.inl ⟨_, lists, rfl, rfl, fun other => absurd closing other⟩)
      next noClosing => exact Or.inl ⟨_, consumed, rfl, fun closing => absurd closing noClosing⟩
  | holding datum list lists =>
      cases list with
      | tail reversed =>
          cases consumed
          exact Or.inr (Or.inl ⟨_, lists, rfl, rfl, by simp [strays]⟩)
      | elements reversed =>
          simp only [consume] at consumed
          split at consumed
          next dot =>
            cases consumed
            exact Or.inr (Or.inr ⟨_, lists, rfl, rfl, dot⟩)
          next =>
            split at consumed
            next closing =>
              cases consumed
              exact Or.inr (Or.inl ⟨_, lists, rfl, rfl, fun other => absurd closing other⟩)
            next noClosing =>
              exact Or.inl ⟨_, consumed, rfl, fun closing => absurd closing noClosing⟩

theorem depth_consume {progress next : Progress} {token : Token}
    (unfinished : ∀ datum, progress ≠ complete datum) (straight : progress.strays token = false)
    (consumed : progress.consume token = .ok next) :
    next.depth = progress.depth + token.turn := by
  rcases consume_cases unfinished consumed with ⟨lists, begun, level, closing⟩ |
    ⟨datum, lists, rfl, level, other⟩ | ⟨list, lists, rfl, level, rfl⟩
  · have noClosing : token ≠ .delimiter ')' := fun same => by simp [closing same] at straight
    rcases begin_cases begun with ⟨rfl, rfl⟩ | ⟨noOpening, datum, rfl⟩
    · rw [level]
      rfl
    · rw [depth_finish, level, Token.turn_eq_zero noOpening noClosing, Int.add_zero]
  · have closing : token = .delimiter ')' := by
      by_contra no
      simp [other no] at straight
    rw [depth_finish, level, closing, Token.turn]
    omega
  · rw [level]
    simp [depth, Token.turn]

theorem depth_finish_pos (datum : Datum) (lists : List OpenList) :
    (∃ whole, finish datum lists = complete whole) ∨ 0 < (finish datum lists).depth := by
  cases lists with
  | nil => exact Or.inl ⟨datum, rfl⟩
  | cons list lists =>
      right
      rw [depth_finish, List.length_cons]
      omega

theorem depth_pos_of_consume {progress next : Progress} {token : Token}
    (unfinished : ∀ datum, progress ≠ complete datum)
    (consumed : progress.consume token = .ok next) :
    (∃ datum, next = complete datum) ∨ 0 < next.depth := by
  rcases consume_cases unfinished consumed with ⟨lists, begun, _⟩ | ⟨datum, lists, rfl, _⟩ |
    ⟨list, lists, rfl, _⟩
  · rcases begin_cases begun with ⟨_, rfl⟩ | ⟨_, datum, rfl⟩
    · right
      simp only [depth]
      omega
    · exact depth_finish_pos datum lists
  · exact depth_finish_pos datum lists
  · right
    simp only [depth, List.length_cons]
    omega

theorem next_of_feed {progress : Progress} {token : Token} {more rest : List Token} {datum : Datum}
    (unfinished : ∀ whole, progress ≠ complete whole)
    (tidied : progress.tidy (token :: more) = true)
    (fed : progress.feed (token :: more) = .complete datum rest) :
    ∃ next, progress.consume token = .ok next ∧ progress.strays token = false ∧
      next.tidy more = true ∧ next.feed more = .complete datum rest := by
  cases progress with
  | complete whole => exact absurd rfl (unfinished whole)
  | expecting lists | opened lists | holding element list lists =>
      simp only [feed] at fed
      simp only [tidy, Bool.and_eq_true, Bool.not_eq_true'] at tidied
      split at fed
      next next consumed =>
        rw [consumed] at tidied
        exact ⟨next, consumed, tidied.1, tidied.2, fed⟩
      next => simp at fed

/-- The tokens that complete an expression close what is open, and not before the last of them. -/
theorem closes_of_feed {progress : Progress} {found rest : List Token} {datum : Datum}
    (unfinished : ∀ whole, progress ≠ complete whole) (tidied : progress.tidy found = true)
    (fed : progress.feed found = .complete datum rest) :
    ∃ taken, found = taken ++ rest ∧ Closes progress.depth taken := by
  -- The depth after a token is the depth before it and its turn, and only a complete expression has
  -- depth zero again.
  induction found generalizing progress with
  | nil =>
      cases progress with
      | complete whole => exact absurd rfl (unfinished whole)
      | expecting | opened | holding => simp [feed] at fed
  | cons token more ih =>
      obtain ⟨next, consumed, straight, further, goesOn⟩ := next_of_feed unfinished tidied fed
      have level := depth_consume unfinished straight consumed
      by_cases ended : ∃ whole, next = complete whole
      · obtain ⟨whole, rfl⟩ := ended
        rw [feed_complete] at goesOn
        cases goesOn
        exact ⟨[token], rfl, closes_singleton level.symm⟩
      · have positive := (depth_pos_of_consume unfinished consumed).resolve_left ended
        obtain ⟨taken, same, closes⟩ :=
          ih (fun whole equal => ended ⟨whole, equal⟩) further goesOn
        rw [level] at positive closes
        exact ⟨token :: taken, by rw [same, List.cons_append], closes.cons positive⟩

end Progress

theorem feed_of_readTokens {token : Token} {rest : List Token} {datum : Datum}
    (whole : ∀ progress, Progress.start.feed (token :: rest) ≠ .partway progress)
    (read : (readTokens (token :: rest)).1 = .ok datum) :
    Progress.start.feed (token :: rest) = .complete datum (readTokens (token :: rest)).2 := by
  rw [readTokens] at read ⊢
  cases fed : Progress.start.feed (token :: rest) with
  | partway progress => exact absurd fed (whole progress)
  | failed error more =>
      rw [fed] at read
      cases read
  | complete found more =>
      rw [fed] at read
      cases read
      rfl

namespace Reader

/-- A list that is read takes the tokens up to the parenthesis that closes it, and the lookahead is
the token after that, unless the input ends first or a token goes astray. -/
theorem list_ends_at_its_parenthesis (text : List Char) (prompt : String) (reads : Nat)
    (datum : Datum) :
    let reader := (afterReads { prompt := prompt } (.ofText text) reads).1
    let source := (afterReads { prompt := prompt } (.ofText text) reads).2
    let reading := reader.read source
    let left := reading.reader.toCome reading.source
    (reader.toCome source).head? = some (.delimiter '(') → reading.outcome = .ok datum →
    (∀ progress, Progress.start.feed (reader.toCome source) ≠ .partway progress) →
    Progress.start.tidy (reader.toCome source) = true →
    ∃ taken, reader.toCome source = taken ++ left ∧ Enclosed taken ∧
      reading.reader.Shows left.head? := by
  intro reader source reading left opens outcome whole tidied
  obtain ⟨all, ahead⟩ := (LineSource.ahead_ofText prompt text).afterReads reads
  obtain ⟨read, after⟩ := ahead.read
  have remains : (readTokens all).2 = left := after.toCome_eq.symm
  have shown := after.shows (known_read reader source)
  rw [show reader.toCome source = all from ahead.toCome_eq] at opens whole tidied ⊢
  obtain ⟨rest, rfl⟩ := List.head?_eq_some_iff.mp opens
  have fed := feed_of_readTokens whole (read.symm.trans outcome)
  rw [remains] at fed shown
  obtain ⟨taken, cut, closes⟩ := Progress.closes_of_feed (by simp [Progress.start]) tidied fed
  have heads : taken.head? = some (.delimiter '(') := by
    obtain ⟨first, more, rfl⟩ := List.exists_cons_of_ne_nil closes.nonempty
    cases cut
    rfl
  exact ⟨taken, cut, closes.enclosed heads, shown⟩

theorem nestedTail_ends_at_its_parenthesis :
    let text := "x (a (b . c) . (d)) e".toList
    let reader := (afterReads { prompt := "" } (.ofText text) 1).1
    let source := (afterReads { prompt := "" } (.ofText text) 1).2
    let reading := reader.read source
    let left := reading.reader.toCome reading.source
    left = [.word ['e']] ∧ ∃ taken, reader.toCome source = taken ++ left ∧ Enclosed taken ∧
      reading.reader.Shows left.head? := by
  intro text reader source reading left
  have fed : Progress.start.feed (reader.toCome source) = .complete
      (.pair (.symbol "a") (.pair (.pair (.symbol "b") (.symbol "c")) (Datum.ofList [.symbol "d"])))
      [.word ['e']] := by decide
  refine ⟨rfl, list_ends_at_its_parenthesis text "" 1 _ rfl rfl ?_ (by decide)⟩
  intro progress unfinished
  rw [fed] at unfinished
  cases unfinished

theorem secondTail_leaves_its_parenthesis :
    let text := "(a . b c) d".toList
    let reading := nextRead { prompt := "" } (.ofText text) 0
    let left := reading.reader.toCome reading.source
    reading.outcome = .ok (.pair (.symbol "a") (.symbol "b")) ∧
    Progress.start.feed (SecdMachine.tokens text) =
      .complete (.pair (.symbol "a") (.symbol "b")) left ∧
    left = [.delimiter ')', .word ['d']] ∧
    (nextRead { prompt := "" } (.ofText text) 1).outcome = .ok (.symbol ")") ∧
    ¬ ∃ taken, SecdMachine.tokens text = taken ++ left ∧ Enclosed taken := by
  intro text reading left
  refine ⟨by decide, by decide, by decide, by decide, ?_⟩
  rintro ⟨taken, cut, enclosed⟩
  have whole : SecdMachine.tokens text =
      [.delimiter '(', .word ['a'], .delimiter '.', .word ['b'], .word ['c']] ++ left := by decide
  rw [List.append_cancel_right (cut.symm.trans whole)] at enclosed
  exact absurd enclosed.balanced (by decide)

end Reader

end SecdMachine
