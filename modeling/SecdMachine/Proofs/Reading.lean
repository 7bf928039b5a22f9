import Mathlib.Data.List.TakeWhile
import SecdMachine.Reader

/-!
Reading from a source that never fails. How the tokens are spread over lines makes no difference:
what a reader returns, time after time, is a function of the tokens still to come.
-/

namespace SecdMachine

theorem Progress.feed_complete (datum : Datum) (rest : List Token) :
    (complete datum).feed rest = .complete datum rest := by
  cases rest <;> rfl

theorem Progress.feed_append (progress : Progress) (left right : List Token) :
    progress.feed (left ++ right) =
      match progress.feed left with
      | .complete datum rest => .complete datum (rest ++ right)
      | .partway further => further.feed right
      | .failed error rest => .failed error (rest ++ right) := by
  induction left generalizing progress with
  | nil =>
      cases progress with
      | complete datum => simp [feed_complete]
      | expecting | opened | holding => rfl
  | cons token left ih =>
      cases progress with
      | complete datum => simp [feed_complete]
      | expecting lists | opened lists | holding datum list lists =>
          simp only [List.cons_append, feed]
          split
          next => exact ih _
          next => rfl

theorem Progress.feed_nil_of_partway {progress further : Progress} {found : List Token}
    (unfinished : progress.feed found = .partway further) : further.feed [] = .partway further := by
  have same := progress.feed_append found []
  rw [List.append_nil, unfinished] at same
  exact same.symm

def Progress.Fed.outcome : Progress.Fed → Except ReadError Datum × List Token
  | complete datum rest => (.ok datum, rest)
  | partway progress => (.ok progress.atEnd, [])
  | failed error rest => (.error (.literal error), rest)

theorem Progress.outcome_feed_nil (progress : Progress) :
    (progress.feed []).outcome = (.ok progress.atEnd, []) := by
  cases progress <;> rfl

def readTokens : List Token → Except ReadError Datum × List Token
  | [] => (.error .endOfInput, [])
  | token :: rest => (Progress.start.feed (token :: rest)).outcome

namespace LineSource

structure Reliable (source : LineSource) : Prop where
  lines : ∀ delivery ∈ source.pending, ∀ failure, delivery.ending? ≠ some (some failure)
  policy : source.policy ≠ .check
  prompts : source.prompts.capacity = none

def tokens (source : LineSource) : List Token :=
  (source.pending.takeWhile fun delivery => delivery.ending?.isNone).flatMap fun delivery =>
    SecdMachine.tokens delivery.line

theorem tokens_of_arrival {delivery : Delivery} (arrives : delivery.ending? = none)
    (rest : List Delivery) (policy : PromptPolicy) (prompts shown : Sink) :
    (⟨delivery :: rest, policy, prompts⟩ : LineSource).tokens =
      SecdMachine.tokens delivery.line ++ (⟨rest, policy, shown⟩ : LineSource).tokens := by
  simp [tokens, arrives]

theorem tokens_of_ending {delivery : Delivery} {failure : Option SourceError}
    (ends : delivery.ending? = some failure) (rest : List Delivery) (policy : PromptPolicy)
    (prompts : Sink) : (⟨delivery :: rest, policy, prompts⟩ : LineSource).tokens = [] := by
  simp [tokens, ends]

theorem prompted_eq {policy : PromptPolicy} {prompts : Sink} (prompt : String)
    (unchecked : policy ≠ .check) (unlimited : prompts.capacity = none) :
    ∃ shown, prompted policy prompts prompt = (none, shown) ∧ shown.capacity = none := by
  cases policy with
  | ignore => exact ⟨prompts, rfl, unlimited⟩
  | record => exact ⟨_, rfl, unlimited⟩
  | check => exact absurd rfl unchecked
  | «show» =>
      simp only [prompted, Sink.write, Sink.accepts, unlimited]
      split
      · exact ⟨_, rfl, unlimited⟩
      · exact ⟨_, rfl, rfl⟩

end LineSource

namespace Reader

/-- A reader and its source have exactly the given tokens to come, and then the end of the input. -/
inductive Ahead (reader : Reader) (source : LineSource) : List Token → Prop
  | reading (running : reader.stage = .unread ∧ reader.tokens = [] ∨ reader.stage = .reading)
      (reliable : source.Reliable) : Ahead reader source (reader.tokens ++ source.tokens)
  | ended (stopped : reader.stage = .ended none) (used : reader.tokens = []) : Ahead reader source []

theorem ahead_of_lines (prompt : String) {source : LineSource}
    (lines : ∀ delivery ∈ source.pending, delivery.ending? = none) (unchecked : source.policy ≠ .check)
    (unlimited : source.prompts.capacity = none) :
    Ahead { prompt := prompt } source
      (source.pending.flatMap fun delivery => SecdMachine.tokens delivery.line) := by
  have all : ∀ delivery ∈ source.pending, delivery.ending?.isNone = true := by
    intro delivery member
    rw [lines delivery member]
    rfl
  have reliable : source.Reliable := by
    refine ⟨fun delivery member failure => ?_, unchecked, unlimited⟩
    rw [lines delivery member]
    simp
  have ahead : Ahead { prompt := prompt } source source.tokens :=
    .reading (Or.inl ⟨rfl, rfl⟩) reliable
  rwa [LineSource.tokens, List.takeWhile_eq_self_iff.mpr all] at ahead

theorem refill_of_reliable (prompt : String) {source : LineSource} (reliable : source.Reliable) :
    (∃ after, refill prompt source.policy source.prompts source.pending = (.ended none, after) ∧
      source.tokens = []) ∨
    (∃ found after, refill prompt source.policy source.prompts source.pending =
        (.tokens found, after) ∧
      found ≠ [] ∧ after.Reliable ∧ found ++ after.tokens = source.tokens) := by
  obtain ⟨pending, policy, prompts⟩ := source
  obtain ⟨delivered, unchecked, unlimited⟩ := reliable
  simp only at delivered unchecked unlimited ⊢
  induction pending generalizing prompts with
  | nil =>
      obtain ⟨shown, prompted, _⟩ := LineSource.prompted_eq prompt unchecked unlimited
      refine Or.inl ⟨⟨[], policy, shown⟩, ?_, rfl⟩
      simp [refill, prompted]
  | cons delivery rest ih =>
      obtain ⟨shown, prompted, limitless⟩ := LineSource.prompted_eq prompt unchecked unlimited
      have later : ∀ other ∈ rest, ∀ failure, other.ending? ≠ some (some failure) :=
        fun other member => delivered other (List.mem_cons_of_mem _ member)
      cases arrives : delivery.ending? with
      | some failure =>
          cases failure with
          | some problem => exact absurd arrives (delivered delivery List.mem_cons_self problem)
          | none =>
              refine Or.inl ⟨⟨rest, policy, shown⟩, ?_, LineSource.tokens_of_ending arrives ..⟩
              rw [refill, prompted]
              simp only [arrives]
      | none =>
          have split := LineSource.tokens_of_arrival arrives rest policy prompts shown
          cases line : SecdMachine.tokens delivery.line with
          | nil =>
              have step : refill prompt policy prompts (delivery :: rest) =
                  refill prompt policy shown rest := by
                rw [refill, prompted]
                simp only [arrives, line]
              rw [step, split, line]
              exact ih shown later limitless
          | cons token more =>
              have step : refill prompt policy prompts (delivery :: rest) =
                  (.tokens (token :: more), ⟨rest, policy, shown⟩) := by
                rw [refill, prompted]
                simp only [arrives, line]
              refine Or.inr ⟨token :: more, ⟨rest, policy, shown⟩, step, by simp,
                ⟨later, unchecked, limitless⟩, ?_⟩
              rw [split, line]

theorem Ahead.advance {reader : Reader} {source : LineSource} {all : List Token}
    (ahead : Ahead reader source all) :
    Ahead (reader.advance source).1 (reader.advance source).2 all ∧
      ((reader.advance source).1.stage = .ended none ∧ (reader.advance source).1.tokens = [] ∧
          all = [] ∨
        (reader.advance source).1.stage = .reading ∧ (reader.advance source).1.tokens ≠ []) := by
  obtain ⟨prompt, found, stage⟩ := reader
  cases ahead with
  | ended stopped used =>
      simp only at stopped used
      subst stopped used
      exact ⟨.ended rfl rfl, Or.inl ⟨rfl, rfl, rfl⟩⟩
  | reading running reliable =>
      cases found with
      | cons token rest =>
          have reads : stage = .reading := by simpa using running
          subst reads
          exact ⟨.reading (Or.inr rfl) reliable, Or.inr ⟨rfl, by simp [Reader.advance]⟩⟩
      | nil =>
          have starts : ∀ failure, stage ≠ .ended failure := by
            rintro failure rfl
            simp at running
          rcases refill_of_reliable prompt reliable with ⟨after, refilled, used⟩ |
            ⟨more, after, refilled, found, still, same⟩
          · have step : (Reader.advance ⟨prompt, [], stage⟩ source) =
                (⟨prompt, [], .ended none⟩, after) := by
              cases stage with
              | ended failure => exact absurd rfl (starts failure)
              | unread | reading => simp [Reader.advance, refilled]
            rw [step, List.nil_append, used]
            exact ⟨.ended rfl rfl, Or.inl ⟨rfl, rfl, rfl⟩⟩
          · have step : (Reader.advance ⟨prompt, [], stage⟩ source) =
                (⟨prompt, more, .reading⟩, after) := by
              cases stage with
              | ended failure => exact absurd rfl (starts failure)
              | unread | reading => simp [Reader.advance, refilled]
            rw [step, List.nil_append, ← same]
            exact ⟨.reading (Or.inr rfl) still, Or.inr ⟨rfl, found⟩⟩

theorem settle_of_ahead {reader : Reader} {source : LineSource} {all : List Token}
    (ahead : Ahead reader source all) (datum : Datum) :
    settle reader source datum = ⟨.ok datum, reader, source⟩ := by
  cases ahead with
  | reading running _ => rcases running with ⟨stage, _⟩ | stage <;> simp [settle, stage]
  | ended stopped _ => simp [settle, stopped]

theorem continueRead_of_complete (prompt : String) {progress : Progress} {found rest : List Token}
    {datum : Datum} (fed : progress.feed found = .complete datum rest) {source : LineSource}
    (reliable : source.Reliable) :
    let reading := continueRead prompt source.policy progress found source.prompts source.pending
    reading.outcome = .ok datum ∧ Ahead reading.reader reading.source (rest ++ source.tokens) := by
  have ahead : Ahead ⟨prompt, rest, .reading⟩ source (rest ++ source.tokens) :=
    .reading (Or.inr rfl) reliable
  have moved := ahead.advance.1
  have step : continueRead prompt source.policy progress found source.prompts source.pending =
      settle (advance ⟨prompt, rest, .reading⟩ source).1 (advance ⟨prompt, rest, .reading⟩ source).2
        datum := by
    unfold continueRead
    rw [fed]
  rw [step, settle_of_ahead moved]
  exact ⟨rfl, moved⟩

/-- Reading goes through the lines one by one, and gives what feeding the tokens of all of them at
once gives. -/
theorem continueRead_eq (prompt : String) (progress : Progress) (found : List Token)
    {source : LineSource} (reliable : source.Reliable) :
    let reading := continueRead prompt source.policy progress found source.prompts source.pending
    reading.outcome = (progress.feed (found ++ source.tokens)).outcome.1 ∧
      Ahead reading.reader reading.source (progress.feed (found ++ source.tokens)).outcome.2 := by
  obtain ⟨pending, policy, prompts⟩ := source
  induction pending generalizing progress found prompts with
  | nil =>
      rw [Progress.feed_append]
      cases fed : progress.feed found with
      | complete datum rest => exact continueRead_of_complete prompt fed reliable
      | failed error rest =>
          unfold continueRead
          rw [fed]
          exact ⟨rfl, .reading (Or.inr rfl) reliable⟩
      | partway further =>
          obtain ⟨shown, prompted, _⟩ :=
            LineSource.prompted_eq prompt reliable.policy reliable.prompts
          simp only at prompted
          unfold continueRead
          simp only [fed, prompted, LineSource.tokens, List.takeWhile_nil, List.flatMap_nil,
            Progress.feed_nil_of_partway fed]
          exact ⟨rfl, .ended rfl rfl⟩
  | cons delivery rest ih =>
      rw [Progress.feed_append]
      cases fed : progress.feed found with
      | complete datum rest => exact continueRead_of_complete prompt fed reliable
      | failed error rest =>
          unfold continueRead
          rw [fed]
          exact ⟨rfl, .reading (Or.inr rfl) reliable⟩
      | partway further =>
          obtain ⟨shown, prompted, limitless⟩ :=
            LineSource.prompted_eq prompt reliable.policy reliable.prompts
          simp only at prompted
          have later : LineSource.Reliable ⟨rest, policy, shown⟩ :=
            ⟨fun other member => reliable.lines other (List.mem_cons_of_mem _ member),
              reliable.policy, limitless⟩
          cases arrives : delivery.ending? with
          | some failure =>
              cases failure with
              | some problem =>
                  exact absurd arrives (reliable.lines delivery List.mem_cons_self problem)
              | none =>
                  rw [LineSource.tokens_of_ending arrives]
                  unfold continueRead
                  simp only [fed, prompted, arrives, Progress.feed_nil_of_partway fed]
                  exact ⟨rfl, .ended rfl rfl⟩
          | none =>
              have step : continueRead prompt policy progress found prompts (delivery :: rest) =
                  continueRead prompt policy further (SecdMachine.tokens delivery.line) shown
                    rest := by
                rw [continueRead]
                simp only [fed, prompted, arrives]
              simp only [step]
              rw [LineSource.tokens_of_arrival arrives rest policy prompts shown]
              exact ih further (SecdMachine.tokens delivery.line) shown later

/-- Reading one expression depends on nothing but the tokens to come. -/
theorem Ahead.read {reader : Reader} {source : LineSource} {all : List Token}
    (ahead : Ahead reader source all) :
    (reader.read source).outcome = (readTokens all).1 ∧
      Ahead (reader.read source).reader (reader.read source).source (readTokens all).2 := by
  obtain ⟨moved, known⟩ := ahead.advance
  simp only [Reader.read]
  generalize reader.advance source = next at moved known ⊢
  obtain ⟨⟨prompt, found, stage⟩, source⟩ := next
  rcases known with ⟨stopped, used, rfl⟩ | ⟨reads, unused⟩
  · simp only at stopped used
    subst stopped used
    exact ⟨rfl, .ended rfl rfl⟩
  · simp only at reads unused
    subst reads
    cases moved with
    | ended _ used => exact absurd used unused
    | reading _ reliable =>
        cases found with
        | nil => exact absurd rfl unused
        | cons token rest =>
            exact continueRead_eq prompt Progress.start (token :: rest) reliable

inductive Yields : Reader → LineSource → List Datum → ReadError → Prop
  | fails {reader source error} (failed : (reader.read source).outcome = .error error) :
      Yields reader source [] error
  | reads {reader source datum datums error} (read : (reader.read source).outcome = .ok datum)
      (more : Yields (reader.read source).reader (reader.read source).source datums error) :
      Yields reader source (datum :: datums) error

theorem Ahead.yields {form : Datum → List Token} {datums : List Datum}
    (reads : ∀ datum ∈ datums, ∀ rest,
      readTokens (form datum ++ rest) = (.ok datum, rest))
    {reader : Reader} {source : LineSource}
    (ahead : Ahead reader source (datums.flatMap form)) :
    Yields reader source datums .endOfInput := by
  induction datums generalizing reader source with
  | nil => exact .fails ahead.read.1
  | cons datum rest ih =>
      rw [List.flatMap_cons] at ahead
      have here := reads datum List.mem_cons_self (rest.flatMap form)
      obtain ⟨outcome, left⟩ := ahead.read
      rw [here] at outcome left
      exact .reads outcome
        (ih (fun other member => reads other (List.mem_cons_of_mem _ member)) left)

end Reader

end SecdMachine
