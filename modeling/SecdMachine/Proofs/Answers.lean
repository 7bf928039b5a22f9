import SecdMachine.Proofs.Lookahead

/-!
What a reader sees of its source. It asks for one line after the other and sees the answers only, so
it cannot tell apart two sources that answer alike, and once its input is over it asks no more.
-/

namespace SecdMachine

namespace LineSource

structure Offers (source : LineSource) (policy : PromptPolicy) (pending : List Delivery) :
    Prop where
  pending : source.pending = pending
  policy : source.policy = policy
  unlimited : source.prompts.capacity = none

end LineSource

theorem Delivery.ending?_of_line {line : List Char} (some : line ≠ []) :
    ({ line := line } : Delivery).ending? = none := by
  simp [Delivery.ending?, some]

def PromptPolicy.Allows (policy : PromptPolicy) (prompt : String) : Prop :=
  policy = .check → prompt.toList.any Text.isOther = false

instance (policy : PromptPolicy) (prompt : String) : Decidable (policy.Allows prompt) :=
  inferInstanceAs (Decidable (policy = .check → prompt.toList.any Text.isOther = false))

namespace LineSource

theorem prompted_of_allows {policy : PromptPolicy} {prompts : Sink} {prompt : String}
    (allows : policy.Allows prompt) (unlimited : prompts.capacity = none) :
    ∃ shown, prompted policy prompts prompt = (none, shown) ∧ shown.capacity = none := by
  by_cases checked : policy = .check
  · subst checked
    refine ⟨{ prompts with written := prompts.written.push prompt }, ?_, unlimited⟩
    simp [prompted, allows rfl, Sink.write, Sink.accepts, unlimited]
  · exact prompted_eq prompt checked unlimited

theorem Offers.next {source : LineSource} {policy : PromptPolicy} {pending : List Delivery}
    {prompt : String} (offers : source.Offers policy pending) (allows : policy.Allows prompt) :
    (source.next prompt).1 = pending.head?.getD { interruption := some .closed } ∧
      (source.next prompt).2.Offers policy pending.tail := by
  obtain ⟨lines, _, prompts⟩ := source
  obtain ⟨rfl, rfl, unlimited⟩ := offers
  obtain ⟨shown, prompted, limitless⟩ := prompted_of_allows allows unlimited
  simp only at prompted
  cases lines with
  | nil => simpa [LineSource.next, prompted] using ⟨rfl, rfl, limitless⟩
  | cons delivery rest => simpa [LineSource.next, prompted] using ⟨rfl, rfl, limitless⟩

theorem pending_of_arrival {source : LineSource} {prompt : String}
    (arrives : (source.next prompt).1.ending? = none) :
    source.pending.length = (source.next prompt).2.pending.length + 1 := by
  obtain ⟨lines, policy, prompts⟩ := source
  simp only [next] at arrives ⊢
  split at arrives
  next => simp [Delivery.ending?] at arrives
  next =>
    cases lines with
    | nil => simp [Delivery.ending?] at arrives
    | cons delivery rest => rfl

end LineSource

namespace Reader

theorem refill_eq_next (prompt : String) (source : LineSource) :
    refill prompt source.policy source.prompts source.pending =
      match (source.next prompt).1.ending? with
      | some failure => (.ended failure, (source.next prompt).2)
      | none =>
          match SecdMachine.tokens (source.next prompt).1.line with
          | [] => refill prompt (source.next prompt).2.policy (source.next prompt).2.prompts
              (source.next prompt).2.pending
          | found => (.tokens found, (source.next prompt).2) := by
  obtain ⟨lines, policy, prompts⟩ := source
  cases lines with
  | nil | cons delivery rest =>
      rw [refill]
      simp only [LineSource.next]
      obtain ⟨refusal, shown⟩ := LineSource.prompted policy prompts prompt
      cases refusal <;> rfl

theorem continueRead_eq_next (prompt : String) (progress : Progress) (found : List Token)
    (source : LineSource) :
    continueRead prompt source.policy progress found source.prompts source.pending =
      match progress.feed found with
      | .failed error rest => ⟨.error (.literal error), ⟨prompt, rest, .reading⟩, source⟩
      | .complete datum rest =>
          settle (advance ⟨prompt, rest, .reading⟩ source).1
            (advance ⟨prompt, rest, .reading⟩ source).2 datum
      | .partway further =>
          match (source.next prompt).1.ending? with
          | some failure => settleAtEnd prompt failure (source.next prompt).2 further
          | none => continueRead prompt (source.next prompt).2.policy further
              (SecdMachine.tokens (source.next prompt).1.line) (source.next prompt).2.prompts
              (source.next prompt).2.pending := by
  obtain ⟨lines, policy, prompts⟩ := source
  cases lines with
  | nil | cons delivery rest =>
      rw [continueRead]
      simp only [LineSource.next]
      obtain ⟨refusal, shown⟩ := LineSource.prompted policy prompts prompt
      cases refusal <;> rfl

/-- Sources of the first relation answer with the same line and stay in it, or with the same ending
and are in the second relation from then on. -/
def AnswerAlike (prompt : String) (going finished : LineSource → LineSource → Prop) : Prop :=
  ∀ left right, going left right →
    (∃ failure, (left.next prompt).1.ending? = some failure ∧
      (right.next prompt).1.ending? = some failure ∧
      finished (left.next prompt).2 (right.next prompt).2) ∨
    ((left.next prompt).1.ending? = none ∧ (right.next prompt).1.ending? = none ∧
      (left.next prompt).1.line = (right.next prompt).1.line ∧
      going (left.next prompt).2 (right.next prompt).2)

def Between (prompt : String) (going finished : LineSource → LineSource → Prop) (reader : Reader)
    (left right : LineSource) : Prop :=
  reader.prompt = prompt ∧
    match reader.stage with
    | .ended _ => reader.tokens = [] ∧ finished left right
    | _ => going left right

def Matched (prompt : String) (going finished : LineSource → LineSource → Prop)
    (left right : Reading) : Prop :=
  left.outcome = right.outcome ∧ left.reader = right.reader ∧
    Between prompt going finished left.reader left.source right.source

variable {prompt : String} {going finished : LineSource → LineSource → Prop}

theorem AnswerAlike.refill (alike : AnswerAlike prompt going finished) {left right : LineSource}
    (related : going left right) :
    (∃ failure first second,
      Reader.refill prompt left.policy left.prompts left.pending = (.ended failure, first) ∧
      Reader.refill prompt right.policy right.prompts right.pending = (.ended failure, second) ∧
      finished first second) ∨
    (∃ found first second,
      Reader.refill prompt left.policy left.prompts left.pending = (.tokens found, first) ∧
      Reader.refill prompt right.policy right.prompts right.pending = (.tokens found, second) ∧
      going first second) := by
  -- Each line that arrives makes the rest of the left source shorter.
  induction bound : left.pending.length using Nat.strongRecOn generalizing left right with
  | ind count ih =>
      rcases alike left right related with ⟨failure, here, there, ended⟩ |
        ⟨here, there, line, still⟩
      · left
        refine ⟨failure, _, _, ?_, ?_, ended⟩
        · rw [refill_eq_next, here]
        · rw [refill_eq_next, there]
      · have shorter := LineSource.pending_of_arrival here
        rw [refill_eq_next prompt left, refill_eq_next prompt right, here, there, line]
        cases SecdMachine.tokens (right.next prompt).1.line with
        | nil => exact ih _ (by omega) still rfl
        | cons token more => exact Or.inr ⟨_, _, _, rfl, rfl, still⟩

theorem Between.advance (alike : AnswerAlike prompt going finished) {reader : Reader}
    {left right : LineSource} (between : Between prompt going finished reader left right) :
    (reader.advance left).1 = (reader.advance right).1 ∧
      Between prompt going finished (reader.advance left).1 (reader.advance left).2
        (reader.advance right).2 := by
  obtain ⟨_, found, stage⟩ := reader
  obtain ⟨rfl, related⟩ := between
  cases found with
  | cons token more => exact ⟨rfl, rfl, related⟩
  | nil =>
      cases stage with
      | ended failure => exact ⟨rfl, rfl, related⟩
      | unread | reading =>
          have start : going left right := related
          rcases alike.refill start with ⟨failure, first, second, here, there, ended⟩ |
            ⟨more, first, second, here, there, still⟩
          · simp only [Reader.advance, here, there]
            exact ⟨trivial, rfl, rfl, ended⟩
          · simp only [Reader.advance, here, there]
            exact ⟨trivial, rfl, still⟩

theorem matched_settle {reader : Reader} {left right : LineSource}
    (between : Between prompt going finished reader left right) (datum : Datum) :
    Matched prompt going finished (settle reader left datum) (settle reader right datum) := by
  unfold settle
  split
  · exact ⟨rfl, rfl, between⟩
  · exact ⟨rfl, rfl, between⟩

theorem AnswerAlike.continueRead (alike : AnswerAlike prompt going finished) (progress : Progress)
    (found : List Token) {left right : LineSource} (related : going left right) :
    Matched prompt going finished
      (Reader.continueRead prompt left.policy progress found left.prompts left.pending)
      (Reader.continueRead prompt right.policy progress found right.prompts right.pending) := by
  induction bound : left.pending.length using Nat.strongRecOn
    generalizing progress found left right with
  | ind count ih =>
      rw [continueRead_eq_next prompt progress found left,
        continueRead_eq_next prompt progress found right]
      cases progress.feed found with
      | failed error rest => exact ⟨rfl, rfl, rfl, related⟩
      | complete datum rest =>
          have waiting : Between prompt going finished ⟨prompt, rest, .reading⟩ left right :=
            ⟨rfl, related⟩
          obtain ⟨same, still⟩ := waiting.advance alike
          simp only [← same]
          exact matched_settle still datum
      | partway further =>
          rcases alike left right related with ⟨failure, here, there, ended⟩ |
            ⟨here, there, line, still⟩
          · have stopped : Between prompt going finished ⟨prompt, [], .ended failure⟩
                (left.next prompt).2 (right.next prompt).2 := ⟨rfl, rfl, ended⟩
            simp only [here, there]
            exact matched_settle stopped further.atEnd
          · have shorter := LineSource.pending_of_arrival here
            simp only [here, there, line]
            exact ih _ (by omega) further _ still rfl

/-- A reader gives the same from sources that answer alike, and they still do so afterwards. -/
theorem Between.read (alike : AnswerAlike prompt going finished) {reader : Reader}
    {left right : LineSource} (between : Between prompt going finished reader left right) :
    Matched prompt going finished (reader.read left) (reader.read right) := by
  obtain ⟨same, still⟩ := between.advance alike
  unfold Reader.read
  simp only [← same]
  generalize (reader.advance left).1 = ready at still
  obtain ⟨_, found, stage⟩ := ready
  obtain ⟨rfl, related⟩ := still
  cases found with
  | nil =>
      cases stage with
      | unread | reading => exact ⟨rfl, rfl, rfl, related⟩
      | ended failure => cases failure <;> exact ⟨rfl, rfl, rfl, related⟩
  | cons token more =>
      cases stage with
      | unread | reading => exact alike.continueRead _ _ related
      | ended failure => exact absurd related.1 (by simp)

theorem Between.afterReads (alike : AnswerAlike prompt going finished) {reader : Reader}
    {left right : LineSource} (between : Between prompt going finished reader left right)
    (reads : Nat) :
    (reader.afterReads left reads).1 = (reader.afterReads right reads).1 ∧
      Between prompt going finished (reader.afterReads left reads).1
        (reader.afterReads left reads).2 (reader.afterReads right reads).2 := by
  induction reads with
  | zero => exact ⟨rfl, between⟩
  | succ reads ih =>
      obtain ⟨same, still⟩ := ih
      obtain ⟨_, reader, after⟩ := still.read alike
      simp only [Reader.afterReads, ← same]
      exact ⟨reader, after⟩

theorem Between.nextRead (alike : AnswerAlike prompt going finished) {reader : Reader}
    {left right : LineSource} (between : Between prompt going finished reader left right)
    (reads : Nat) :
    Matched prompt going finished (reader.nextRead left reads) (reader.nextRead right reads) := by
  obtain ⟨same, still⟩ := between.afterReads alike reads
  simp only [Reader.nextRead, ← same]
  exact still.read alike

def SameLines (policy other : PromptPolicy) (left right : LineSource) : Prop :=
  ∃ pending, left.Offers policy pending ∧ right.Offers other pending

theorem answerAlike_sameLines {policy other : PromptPolicy} (allows : policy.Allows prompt)
    (alsoAllows : other.Allows prompt) :
    AnswerAlike prompt (SameLines policy other) (SameLines policy other) := by
  rintro left right ⟨pending, here, there⟩
  obtain ⟨answer, after⟩ := here.next allows
  obtain ⟨sameAnswer, alsoAfter⟩ := there.next alsoAllows
  rw [answer, sameAnswer]
  cases ending : (pending.head?.getD { interruption := some .closed }).ending? with
  | some failure => exact Or.inl ⟨failure, rfl, rfl, _, after, alsoAfter⟩
  | none => exact Or.inr ⟨rfl, rfl, rfl, _, after, alsoAfter⟩

theorem Between.sameLines {policy other : PromptPolicy} {reader : Reader} {left right : LineSource}
    (between : Between prompt (SameLines policy other) (SameLines policy other) reader left right) :
    SameLines policy other left right := by
  obtain ⟨_, found, stage⟩ := reader
  obtain ⟨_, related⟩ := between
  cases stage with
  | unread | reading => exact related
  | ended failure => exact related.2

theorem read_of_ended {reader : Reader} {failure : Option SourceError} (used : reader.tokens = [])
    (ended : reader.stage = .ended failure) (source : LineSource) :
    reader.read source = ⟨.error (failure.elim .endOfInput .source), reader, source⟩ := by
  obtain ⟨prompt, found, stage⟩ := reader
  simp only at used ended
  subst used ended
  cases failure <;> rfl

theorem settle_of_failed {reader : Reader} {failure : SourceError}
    (failed : reader.stage = .ended (some failure)) (source : LineSource) (datum : Datum) :
    (settle reader source datum).outcome = .error (.source failure) := by
  rw [settle, failed]

theorem continueRead_of_failed (prompt : String) (progress : Progress) (found : List Token)
    (source : LineSource) {failure : SourceError}
    (failed : (continueRead prompt source.policy progress found source.prompts
      source.pending).reader.stage = .ended (some failure)) :
    (continueRead prompt source.policy progress found source.prompts source.pending).outcome =
      .error (.source failure) := by
  induction bound : source.pending.length using Nat.strongRecOn
    generalizing progress found source with
  | ind count ih =>
      rw [continueRead_eq_next] at failed ⊢
      cases fed : progress.feed found with
      | failed error rest =>
          rw [fed] at failed
          cases failed
      | complete datum rest =>
          rw [fed] at failed
          simp only [settle_reader] at failed
          exact settle_of_failed failed _ _
      | partway further =>
          rw [fed] at failed
          cases answer : (source.next prompt).1.ending? with
          | some problem =>
              simp only [answer, settleAtEnd, settle_reader] at failed
              exact settle_of_failed failed _ _
          | none =>
              have shorter := LineSource.pending_of_arrival answer
              simp only [answer] at failed ⊢
              exact ih _ (by omega) further _ _ failed rfl

theorem read_of_failed (reader : Reader) (source : LineSource) {failure : SourceError}
    (failed : (reader.read source).reader.stage = .ended (some failure)) :
    (reader.read source).outcome = .error (.source failure) := by
  unfold read at failed ⊢
  generalize reader.advance source = ready at failed ⊢
  obtain ⟨⟨prompt, found, stage⟩, after⟩ := ready
  cases found with
  | nil =>
      cases stage with
      | unread | reading => cases failed
      | ended problem =>
          cases problem with
          | none => cases failed
          | some problem =>
              cases failed
              rfl
  | cons token more => exact continueRead_of_failed _ _ _ _ failed

end Reader

end SecdMachine
