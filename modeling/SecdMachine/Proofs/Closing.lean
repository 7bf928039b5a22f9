import SecdMachine.Proofs.Lookahead

/-!
Expressions that are cut off. The end of the input closes every list that is still open, as closing
parentheses would do, and parentheses too many are never looked at.
-/

namespace SecdMachine

namespace Progress

/-- How many closing parentheses complete the expression. A tail that is missing takes one for
itself. -/
def owed : Progress → Nat
  | expecting lists => lists.length + 1
  | opened lists => lists.length + 1
  | holding _ _ lists => lists.length + 1
  | complete _ => 0

theorem atEnd_finish (datum : Datum) (lists : List OpenList) :
    (finish datum lists).atEnd = closeAll datum lists := by
  cases lists <;> rfl

theorem owed_finish (datum : Datum) (lists : List OpenList) :
    (finish datum lists).owed = lists.length := by
  cases lists <;> rfl

/-- A closing parenthesis closes what the end of the input would close first. -/
theorem consume_closing {progress : Progress} (unfinished : ∀ datum, progress ≠ complete datum) :
    ∃ datum lists, progress.consume (.delimiter ')') = .ok (finish datum lists) ∧
      progress.atEnd = closeAll datum lists ∧ progress.owed = lists.length + 1 := by
  cases progress with
  | complete datum => exact absurd rfl (unfinished datum)
  | expecting lists => exact ⟨.symbol ")", lists, rfl, rfl, rfl⟩
  | opened lists => exact ⟨Datum.nil, lists, rfl, rfl, rfl⟩
  | holding datum list lists =>
      cases list with
      | elements reversed => exact ⟨_, lists, rfl, rfl, rfl⟩
      | tail reversed => exact ⟨_, lists, rfl, rfl, rfl⟩

theorem feed_closings (progress : Progress) (count : Nat) :
    (progress.feed (List.replicate count (.delimiter ')'))).outcome.1 = .ok progress.atEnd ∧
      (progress.owed ≤ count → ∃ rest,
        progress.feed (List.replicate count (.delimiter ')')) = .complete progress.atEnd rest) := by
  induction count generalizing progress with
  | zero =>
      cases progress with
      | complete datum => exact ⟨rfl, fun _ => ⟨[], rfl⟩⟩
      | expecting lists | opened lists | holding datum list lists =>
          refine ⟨rfl, ?_⟩
          intro enough
          simp [owed] at enough
  | succ count ih =>
      by_cases finished : ∃ datum, progress = complete datum
      · obtain ⟨datum, rfl⟩ := finished
        rw [feed_complete]
        exact ⟨rfl, fun _ => ⟨_, rfl⟩⟩
      · have unfinished : ∀ datum, progress ≠ complete datum :=
          fun datum same => finished ⟨datum, same⟩
        obtain ⟨datum, lists, consumed, whole, more⟩ := consume_closing unfinished
        have step : progress.feed (List.replicate (count + 1) (.delimiter ')')) =
            (finish datum lists).feed (List.replicate count (.delimiter ')')) := by
          cases progress with
          | complete datum => exact absurd rfl (unfinished datum)
          | expecting | opened | holding => simp only [List.replicate_succ, feed, consumed]
        have further := ih (finish datum lists)
        rw [atEnd_finish, owed_finish] at further
        rw [step, whole, more]
        exact ⟨further.1, fun enough => further.2 (by omega)⟩

/-- Closing parentheses after the tokens change nothing, and enough of them complete what is
read. -/
theorem feed_append_closings (progress : Progress) (found : List Token) :
    (∀ count, (progress.feed (found ++ List.replicate count (.delimiter ')'))).outcome.1 =
      (progress.feed found).outcome.1) ∧
    ∀ datum, (progress.feed found).outcome.1 = .ok datum → ∃ enough, ∀ count, enough ≤ count →
      ∃ rest, progress.feed (found ++ List.replicate count (.delimiter ')')) =
        .complete datum rest := by
  simp only [feed_append]
  cases progress.feed found with
  | complete datum rest =>
      refine ⟨fun _ => rfl, ?_⟩
      rintro _ ⟨⟩
      exact ⟨0, fun count _ => ⟨_, rfl⟩⟩
  | failed error rest =>
      refine ⟨fun _ => rfl, ?_⟩
      rintro _ ⟨⟩
  | partway further =>
      refine ⟨fun count => (further.feed_closings count).1, ?_⟩
      rintro _ ⟨⟩
      exact ⟨further.owed, fun count enough => (further.feed_closings count).2 enough⟩

end Progress

theorem tokens_ne_nil_of_solid {text : List Char}
    (solid : ∃ char ∈ text, Text.isBlank char = false) : tokens text ≠ [] := by
  induction text with
  | nil => simp at solid
  | cons first rest ih =>
      rw [tokens_cons]
      by_cases blank : Text.isBlank first = true
      · rw [if_pos blank]
        obtain ⟨char, member, visible⟩ := solid
        rcases List.mem_cons.mp member with rfl | member
        · rw [blank] at visible
          cases visible
        · exact ih ⟨char, member, visible⟩
      · rw [if_neg blank]
        split
        · simp
        · split <;> simp

theorem readText_eq {text : List Char} (some : tokens text ≠ []) :
    readText text = (Progress.start.feed (tokens text)).outcome.1 := by
  have outcome := (LineSource.ahead_ofText defaultPrompt text).read.1
  obtain ⟨token, rest, same⟩ := List.exists_cons_of_ne_nil some
  rw [same] at outcome ⊢
  exact outcome

theorem exists_mapError_eq_outcome (fed : Progress.Fed) :
    ∃ result : Except LiteralError Datum, fed.outcome.1 = result.mapError .literal := by
  cases fed with
  | complete datum rest => exact ⟨.ok datum, rfl⟩
  | partway progress => exact ⟨.ok progress.atEnd, rfl⟩
  | failed error rest => exact ⟨.error error, rfl⟩

theorem tokens_closings (count : Nat) :
    tokens (List.replicate count ')') = List.replicate count (.delimiter ')') := by
  induction count with
  | zero => rfl
  | succ count ih =>
      rw [List.replicate_succ, List.replicate_succ, tokens_cons, if_neg (by decide),
        if_neg (by decide), if_neg (by decide), ih]

theorem tokens_decode_closings (bytes : Text.Bytes) {blank : Char}
    (separates : Text.isBlank blank = true) (count : Nat) :
    tokens (Text.decode (bytes ++ String.utf8EncodeChar blank ++ List.replicate count 0x29)) =
      tokens (Text.decode bytes) ++ List.replicate count (.delimiter ')') := by
  have encoded : String.utf8EncodeChar blank ++ List.replicate count 0x29 =
      (blank :: List.replicate count ')').flatMap String.utf8EncodeChar := by
    have closing : String.utf8EncodeChar ')' = [0x29] := by decide
    rw [List.flatMap_cons, List.flatMap_replicate, closing]
    simp
  rw [List.append_assoc, encoded, Text.decode_append_char, tokens_append_blank separates,
    tokens_closings]

/-- A text that is followed by a blank and closing parentheses reads as it does alone, whatever
their number: as the same tree, or with the same bad literal. With enough of them the expression is
complete before the text ends. -/
theorem missing_parentheses_do_not_matter (bytes : Text.Bytes) (blank : Char)
    (solid : ∃ char ∈ Text.decode bytes, Text.isBlank char = false)
    (separates : Text.isBlank blank = true) :
    let closed := fun count =>
      Text.decode (bytes ++ String.utf8EncodeChar blank ++ List.replicate count 0x29)
    ∃ result : Except LiteralError Datum,
      readText (Text.decode bytes) = result.mapError .literal ∧
      (∀ count, readText (closed count) = result.mapError .literal) ∧
      ∀ datum, result = .ok datum → ∃ enough, ∀ count, enough ≤ count →
        ∃ rest, Progress.start.feed (tokens (closed count)) = .complete datum rest := by
  intro closed
  have some := tokens_ne_nil_of_solid solid
  have split := tokens_decode_closings bytes separates
  obtain ⟨same, completes⟩ := Progress.start.feed_append_closings (tokens (Text.decode bytes))
  obtain ⟨result, outcome⟩ :=
    exists_mapError_eq_outcome (Progress.start.feed (tokens (Text.decode bytes)))
  refine ⟨result, (readText_eq some).trans outcome, ?_, ?_⟩
  · intro count
    have alsoSome : tokens (closed count) ≠ [] := by
      rw [split]
      simp [some]
    rw [readText_eq alsoSome, split, same, outcome]
  · rintro datum rfl
    simp only [closed, split]
    exact completes datum outcome

theorem missingTail_reads_as_closed :
    let bytes : Text.Bytes := [0x28, 0x61, 0x20, 0x28, 0x62, 0x20, 0x2E]
    let datum := Datum.ofList [.symbol "a", .pair (.symbol "b") (.symbol ")")]
    (∃ char ∈ Text.decode bytes, Text.isBlank char = false) ∧
    readText (Text.decode bytes) = .ok datum ∧
    ∀ count, readText (Text.decode (bytes ++ String.utf8EncodeChar '\n' ++
      List.replicate count 0x29)) = .ok datum := by
  intro bytes datum
  have solid : ∃ char ∈ Text.decode bytes, Text.isBlank char = false := ⟨'(', by decide, by decide⟩
  obtain ⟨result, alone, closed, _⟩ :=
    missing_parentheses_do_not_matter bytes '\n' solid (by decide)
  have read : readText (Text.decode bytes) = .ok datum := by decide
  refine ⟨solid, read, ?_⟩
  intro count
  rw [closed, ← alone, read]

end SecdMachine
