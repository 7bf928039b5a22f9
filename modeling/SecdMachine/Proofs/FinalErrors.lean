import SecdMachine.Proofs.Answers

/-!
The errors of a reader are final. A reader that has failed stands where it has nothing to do but fail
again: its input is over, or the next token is the bad literal. In neither place does it ask its source
for a line.
-/

namespace SecdMachine

/-- A number of requests for a line. They stop at the first answer that ends the input, if one
does. -/
inductive LineSource.Requests (prompt : String) :
    LineSource → Nat → Option (Option SourceError) → LineSource → Prop
  | none (source : LineSource) : Requests prompt source 0 none source
  | line {source after : LineSource} {count : Nat} {ended : Option (Option SourceError)}
      (arrives : (source.next prompt).1.ending? = Option.none)
      (more : Requests prompt (source.next prompt).2 count ended after) :
      Requests prompt source (count + 1) ended after
  | ending {source : LineSource} {failure : Option SourceError}
      (ends : (source.next prompt).1.ending? = some failure) :
      Requests prompt source 1 (some failure) (source.next prompt).2

namespace LineSource

variable {prompt : String} {source middle after : LineSource} {count further : Nat}
  {ended : Option (Option SourceError)}

theorem Requests.append (first : source.Requests prompt count .none middle)
    (second : middle.Requests prompt further ended after) :
    source.Requests prompt (count + further) ended after := by
  generalize going : (Option.none : Option (Option SourceError)) = still at first
  induction first with
  | none source => rwa [Nat.zero_add]
  | line arrives _ ih =>
      rw [Nat.add_right_comm]
      exact .line arrives (ih second going)
  | ending _ => cases going

theorem Requests.written (requests : source.Requests prompt count ended after)
    (records : source.policy = .record) :
    after.prompts.written = source.prompts.written ++ Array.replicate count prompt := by
  have noted : ∀ {source : LineSource}, source.policy = .record →
      (source.next prompt).2.policy = .record ∧
        (source.next prompt).2.prompts.written = source.prompts.written.push prompt := by
    rintro ⟨pending, policy, prompts⟩ ⟨⟩
    cases pending <;> exact ⟨rfl, rfl⟩
  induction requests with
  | none source => simp
  | line _ _ ih =>
      obtain ⟨still, written⟩ := noted records
      rw [ih still, written]
      apply Array.ext'
      simp [List.replicate_succ]
  | ending _ => simp [(noted records).2]

end LineSource

/-- Only a number that is no integer stops the reading of tokens, wherever it stands. -/
theorem Progress.begin_of_consume {progress : Progress} {token : Token} {error : LiteralError}
    (failed : progress.consume token = .error error) : begin [] token = .error error := by
  have anywhere : ∀ lists, begin lists token = .error error → begin [] token = .error error := by
    intro lists failed
    unfold begin at failed ⊢
    split at failed
    · cases failed
    · cases failed
    · split at failed <;> simp_all
    · cases failed
  cases progress with
  | expecting lists => exact anywhere lists failed
  | opened lists =>
      rw [consume] at failed
      split at failed
      · cases failed
      · exact anywhere _ failed
  | holding datum list lists =>
      cases list with
      | elements reversed =>
          rw [consume] at failed
          split at failed
          · cases failed
          · split at failed
            · cases failed
            · exact anywhere _ failed
      | tail reversed => cases failed
  | complete datum => cases failed

theorem Progress.exists_bad_of_failed {progress : Progress} {found rest : List Token}
    {error : LiteralError} (failed : progress.feed found = .failed error rest) :
    ∃ token more, rest = token :: more ∧ begin [] token = .error error := by
  induction found generalizing progress with
  | nil => cases progress <;> simp [feed] at failed
  | cons token more ih =>
      cases progress with
      | complete datum => simp [feed] at failed
      | expecting lists | opened lists | holding datum list lists =>
          simp only [feed] at failed
          split at failed
          next => exact ih failed
          next bad =>
            cases failed
            exact ⟨token, more, rfl, begin_of_consume bad⟩

namespace Reader

inductive Used : Reader → Prop
  | new (prompt : String) : Used { prompt := prompt }
  | prompted {reader : Reader} (used : Used reader) (prompt : String) :
      Used { reader with prompt := prompt }
  | read {reader : Reader} (used : Used reader) (source : LineSource) :
      Used (reader.read source).reader

/-- Every further read, with any prompt and from a source in any state, reports the error, and
leaves the reader and the source as they are. -/
def FailsWith (reader : Reader) (error : ReadError) : Prop :=
  ∀ prompt source count, nextRead { reader with prompt := prompt } source count =
    ⟨.error error, { reader with prompt := prompt }, source⟩

inductive Stuck (reader : Reader) : ReadError → Prop
  | ended {failure : Option SourceError} (used : reader.tokens = [])
      (stopped : reader.stage = .ended failure) : Stuck reader (failure.elim .endOfInput .source)
  | literal {token : Token} {more : List Token} {error : LiteralError}
      (next : reader.tokens = token :: more) (bad : Progress.begin [] token = .error error)
      (running : reader.stage = .reading) : Stuck reader (.literal error)

inductive Stands (reader : Reader) : Option (Option SourceError) → Prop
  | reading (known : reader.tokens ≠ []) (running : reader.stage = .reading) : Stands reader none
  | ended {failure : Option SourceError} (used : reader.tokens = [])
      (stopped : reader.stage = .ended failure) : Stands reader (some failure)

variable {reader : Reader} {source : LineSource} {error : ReadError} {prompt : String}

theorem Stuck.read (stuck : reader.Stuck error) (source : LineSource) :
    reader.read source = ⟨.error error, reader, source⟩ := by
  obtain ⟨prompt, found, stage⟩ := reader
  cases stuck with
  | ended used stopped => exact read_of_ended used stopped source
  | @literal token more error next bad running =>
      simp only at next running
      subst next running
      have fed : Progress.start.feed (token :: more) = .failed error (token :: more) := by
        simp only [Progress.start, Progress.feed, Progress.consume, bad]
      simp only [Reader.read, advance]
      rw [continueRead_eq_next, fed]

theorem Stuck.stopped (stuck : reader.Stuck error) {failure : Option SourceError}
    (same : error = failure.elim .endOfInput .source) : reader.stage = .ended failure := by
  cases stuck with
  | @ended other _ stopped =>
      have equal : other = failure := by
        cases other <;> cases failure <;> simp_all
      rw [stopped, equal]
  | literal => cases failure <;> cases same

theorem Stuck.failsWith (stuck : reader.Stuck error) : reader.FailsWith error := by
  intro prompt source count
  have stuck : Stuck { reader with prompt := prompt } error := by
    cases stuck with
    | ended used stopped => exact .ended used stopped
    | literal next bad running => exact .literal next bad running
  have stays : afterReads { reader with prompt := prompt } source count =
      ({ reader with prompt := prompt }, source) := by
    induction count with
    | zero => rfl
    | succ count ih => simp only [afterReads, ih, stuck.read source]
  simp only [nextRead, stays, stuck.read source]

theorem requests_refill (prompt : String) (source : LineSource) :
    ∃ count after,
      (∃ found, refill prompt source.policy source.prompts source.pending =
          (.tokens found, after) ∧ found ≠ [] ∧ source.Requests prompt count none after) ∨
      ∃ failure, refill prompt source.policy source.prompts source.pending =
          (.ended failure, after) ∧ source.Requests prompt count (some failure) after := by
  induction bound : source.pending.length using Nat.strongRecOn generalizing source with
  | ind size ih =>
      rw [refill_eq_next]
      cases answer : (source.next prompt).1.ending? with
      | some failure => exact ⟨1, _, Or.inr ⟨failure, rfl, .ending answer⟩⟩
      | none =>
          have shorter := LineSource.pending_of_arrival answer
          cases SecdMachine.tokens (source.next prompt).1.line with
          | nil =>
              obtain ⟨count, after, ⟨found, refilled, some, more⟩ | ⟨failure, refilled, more⟩⟩ :=
                ih _ (by omega) (source.next prompt).2 rfl
              · exact ⟨count + 1, after, Or.inl ⟨found, refilled, some, .line answer more⟩⟩
              · exact ⟨count + 1, after, Or.inr ⟨failure, refilled, .line answer more⟩⟩
          | cons token more =>
              exact ⟨1, _, Or.inl ⟨token :: more, rfl, by simp, .line answer (.none _)⟩⟩

structure Leaves (prompt : String) (source : LineSource) (reader : Reader) (after : LineSource)
    (ended : Option (Option SourceError)) : Prop where
  same : reader.prompt = prompt
  stands : reader.Stands ended
  requests : ∃ count, source.Requests prompt count ended after

/-- A reader whose input is not over makes the next token known, or reaches the end of the input. -/
theorem leaves_advance (reader : Reader) (source : LineSource)
    (going : reader.stage = .unread ∧ reader.tokens = [] ∨ reader.stage = .reading) :
    ∃ ended, Leaves reader.prompt source (reader.advance source).1 (reader.advance source).2
      ended := by
  obtain ⟨prompt, found, stage⟩ := reader
  cases found with
  | cons token more =>
      have running : stage = .reading := by simpa using going
      subst running
      exact ⟨none, rfl, .reading (by simp [advance]) rfl, 0, .none source⟩
  | nil =>
      obtain ⟨count, after, ⟨found, refilled, some, requests⟩ | ⟨failure, refilled, requests⟩⟩ :=
        requests_refill prompt source
      · have step : (advance ⟨prompt, [], stage⟩ source) = (⟨prompt, found, .reading⟩, after) := by
          rcases going with ⟨rfl, _⟩ | rfl <;> simp [advance, refilled]
        rw [step]
        exact ⟨none, rfl, .reading some rfl, count, requests⟩
      · have step : (advance ⟨prompt, [], stage⟩ source) =
            (⟨prompt, [], .ended failure⟩, after) := by
          rcases going with ⟨rfl, _⟩ | rfl <;> simp [advance, refilled]
        rw [step]
        exact ⟨some failure, rfl, .ended rfl rfl, count, requests⟩

structure Concluded (prompt : String) (source : LineSource) (reading : Reading)
    (ended : Option (Option SourceError)) : Prop where
  leaves : Leaves prompt source reading.reader reading.source ended
  stuck : ∀ error, reading.outcome = .error error → reading.reader.Stuck error
  reported : ∀ failure, ended = some (some failure) →
    reading.outcome = .error (.source failure)

theorem concluded_settle {after : LineSource} {ended : Option (Option SourceError)}
    (leaves : Leaves prompt source reader after ended) (datum : Datum) :
    Concluded prompt source (settle reader after datum) ended := by
  obtain ⟨same, stands, requests⟩ := leaves
  cases stands with
  | reading known running =>
      have settled : settle reader after datum = ⟨.ok datum, reader, after⟩ := by
        rw [settle, running]
      rw [settled]
      exact ⟨⟨same, .reading known running, requests⟩, by simp, by simp⟩
  | @ended failure used stopped =>
      cases failure with
      | none =>
          have settled : settle reader after datum = ⟨.ok datum, reader, after⟩ := by
            rw [settle, stopped]
          rw [settled]
          exact ⟨⟨same, .ended used stopped, requests⟩, by simp, by simp⟩
      | some problem =>
          have settled : settle reader after datum = ⟨.error (.source problem), reader, after⟩ := by
            rw [settle, stopped]
          rw [settled]
          refine ⟨⟨same, .ended used stopped, requests⟩, ?_, by simp⟩
          rintro _ ⟨⟩
          exact .ended used stopped

theorem Concluded.line {reading : Reading} {ended : Option (Option SourceError)}
    (arrives : (source.next prompt).1.ending? = none)
    (concluded : Concluded prompt (source.next prompt).2 reading ended) :
    Concluded prompt source reading ended := by
  obtain ⟨⟨same, stands, count, requests⟩, stuck, reported⟩ := concluded
  exact ⟨⟨same, stands, count + 1, .line arrives requests⟩, stuck, reported⟩

theorem concluded_continueRead (prompt : String) (progress : Progress) (found : List Token)
    (source : LineSource) :
    ∃ ended, Concluded prompt source
      (continueRead prompt source.policy progress found source.prompts source.pending) ended := by
  induction bound : source.pending.length using Nat.strongRecOn
    generalizing progress found source with
  | ind size ih =>
      rw [continueRead_eq_next]
      cases fed : progress.feed found with
      | failed error rest =>
          obtain ⟨token, more, rfl, bad⟩ := Progress.exists_bad_of_failed fed
          refine ⟨none, ⟨rfl, .reading (by simp) rfl, 0, .none source⟩, ?_, by simp⟩
          rintro _ ⟨⟩
          exact .literal rfl bad rfl
      | complete datum rest =>
          obtain ⟨ended, leaves⟩ := leaves_advance ⟨prompt, rest, .reading⟩ source (Or.inr rfl)
          exact ⟨ended, concluded_settle leaves datum⟩
      | partway further =>
          cases answer : (source.next prompt).1.ending? with
          | some failure =>
              have leaves : Leaves prompt source ⟨prompt, [], .ended failure⟩
                (source.next prompt).2 (some failure) := ⟨rfl, .ended rfl rfl, 1, .ending answer⟩
              exact ⟨some failure, concluded_settle leaves further.atEnd⟩
          | none =>
              have shorter := LineSource.pending_of_arrival answer
              obtain ⟨ended, concluded⟩ := ih _ (by omega) further
                (SecdMachine.tokens (source.next prompt).1.line) (source.next prompt).2 rfl
              exact ⟨ended, concluded.line answer⟩

theorem concluded_read (source : LineSource)
    (going : reader.stage = .unread ∧ reader.tokens = [] ∨ reader.stage = .reading) :
    ∃ ended, Concluded reader.prompt source (reader.read source) ended := by
  obtain ⟨ended, same, stands, count, requests⟩ := leaves_advance reader source going
  unfold read
  generalize reader.advance source = next at same stands requests
  obtain ⟨⟨prompt, found, stage⟩, after⟩ := next
  simp only at same requests
  subst same
  cases stands with
  | reading known running =>
      simp only at known running
      subst running
      obtain ⟨token, more, rfl⟩ := List.exists_cons_of_ne_nil known
      obtain ⟨ended, ⟨same, stands, further, others⟩, stuck, reported⟩ :=
        concluded_continueRead reader.prompt Progress.start (token :: more) after
      exact ⟨ended, ⟨same, stands, count + further, requests.append others⟩, stuck, reported⟩
  | @ended failure used stopped =>
      simp only at used stopped
      subst used stopped
      refine ⟨some failure, ?_⟩
      have leaves : Leaves reader.prompt source ⟨reader.prompt, [], .ended failure⟩ after
        (some failure) := ⟨rfl, .ended rfl rfl, count, requests⟩
      have stuck : Stuck ⟨reader.prompt, [], .ended failure⟩ (failure.elim .endOfInput .source) :=
        .ended rfl rfl
      have ends : ∀ error, (Except.error (failure.elim .endOfInput .source) : Except _ Datum) =
          .error error → Stuck ⟨reader.prompt, [], .ended failure⟩ error :=
        fun error same => Except.error.inj same ▸ stuck
      cases failure with
      | none => exact ⟨leaves, ends, by simp⟩
      | some problem => exact ⟨leaves, ends, by simp⟩

theorem Used.going_or_ended (used : reader.Used) :
    (reader.stage = .unread ∧ reader.tokens = [] ∨ reader.stage = .reading) ∨
      ∃ failure, reader.tokens = [] ∧ reader.stage = .ended failure := by
  induction used with
  | new prompt => exact Or.inl (Or.inl ⟨rfl, rfl⟩)
  | prompted _ prompt ih => exact ih
  | read _ source ih =>
      rcases ih with going | ⟨failure, empty, stopped⟩
      · obtain ⟨_, ⟨_, stands, _⟩, _⟩ := concluded_read source going
        cases stands with
        | reading _ running => exact Or.inl (Or.inr running)
        | ended empty stopped => exact Or.inr ⟨_, empty, stopped⟩
      · rw [read_of_ended empty stopped]
        exact Or.inr ⟨failure, empty, stopped⟩

/-- Once a read has reported an error, all later ones report it and ask for no line. A read asks for
lines up to the first answer that ends the input, and after such an answer the reader never asks
again. A source that failed is reported by the read that asked it, and nothing but such a failure is
reported as one. -/
theorem errors_are_final (used : reader.Used) (source : LineSource) :
    let reading := reader.read source
    (∀ error, reading.outcome = .error error → reading.reader.FailsWith error) ∧
    ∃ count ended, source.Requests reader.prompt count ended reading.source ∧
      (source.policy = .record → reading.source.prompts.written =
        source.prompts.written ++ Array.replicate count reader.prompt) ∧
      (∀ failure, ended = some failure →
        reading.reader.FailsWith (failure.elim .endOfInput .source) ∧
        ∀ problem, failure = some problem → reading.outcome = .error (.source problem)) ∧
      ∀ failure : Option SourceError,
        reading.outcome = .error (failure.elim .endOfInput .source) →
          ended = some failure ∨ reader.FailsWith (failure.elim .endOfInput .source) := by
  intro reading
  rcases used.going_or_ended with going | ⟨failure, empty, stopped⟩
  · obtain ⟨ended, ⟨same, stands, count, requests⟩, stuck, reported⟩ := concluded_read source going
    refine ⟨fun error failed => (stuck error failed).failsWith, count, ended, requests,
      requests.written, ?_, ?_⟩
    · rintro failure rfl
      cases stands with
      | ended empty stopped =>
          refine ⟨(Stuck.ended empty stopped).failsWith, ?_⟩
          rintro problem rfl
          exact reported problem rfl
    · intro failure failed
      have finished := (stuck _ failed).stopped rfl
      cases stands with
      | reading _ running =>
          rw [running] at finished
          cases finished
      | ended _ stopped =>
          rw [stopped] at finished
          exact Or.inl (congrArg some (Stage.ended.inj finished))
  · have stuck : reader.Stuck (failure.elim .endOfInput .source) := .ended empty stopped
    have same : reading = ⟨.error (failure.elim .endOfInput .source), reader, source⟩ :=
      stuck.read source
    rw [same]
    refine ⟨?_, 0, none, .none source, by simp, by simp, ?_⟩
    · rintro _ ⟨⟩
      exact stuck.failsWith
    · intro other failed
      rw [Except.error.inj failed] at stuck
      exact Or.inr stuck.failsWith

def nestedLiteral : LineSource where
  pending := ["7 (a", "b (99999999999999999999", "c)) d"].map fun line => { line := line.toList }
  policy := .record

def failingSource : LineSource where
  pending := [{ line := "7 (a".toList },
    { line := "b)".toList, interruption := some (.failed (.broken "boom")) },
    { line := "c)".toList }]
  policy := .record

theorem nestedLiteral_and_failingSource_are_final :
    let first := Reader.read { prompt := "? " } nestedLiteral
    let second := first.reader.read first.source
    let other := Reader.read { prompt := "? " } failingSource
    let failed := other.reader.read other.source
    let error : ReadError := .literal ⟨"99999999999999999999", .outOfRange⟩
    first.outcome = .ok (.integer 7) ∧ second.outcome = .error error ∧
    second.reader.FailsWith error ∧ second.source.pending = [{ line := "c)) d".toList }] ∧
    other.outcome = .ok (.integer 7) ∧ failed.outcome = .error (.source (.broken "boom")) ∧
    failed.reader.FailsWith (.source (.broken "boom")) ∧
    failed.source.prompts.written = #["? ", "? "] := by
  intro first second other failed error
  have literal := errors_are_final (.read (.new "? ") nestedLiteral) first.source
  have broken := errors_are_final (.read (.new "? ") failingSource) other.source
  refine ⟨by decide, by decide, literal.1 error (by decide), by decide, by decide, by decide,
    broken.1 (.source (.broken "boom")) (by decide), by decide⟩

end Reader

end SecdMachine
