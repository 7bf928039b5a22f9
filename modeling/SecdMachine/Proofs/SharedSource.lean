import SecdMachine.Proofs.Answers
import SecdMachine.Proofs.Stages

/-!
Two readers over one source. The first reader takes the lines up to an empty one and no more, so the
second finds what it would find in a source of its own, and a pipeline that reads program and
arguments from one source gives what it gives when each has its source.
-/

namespace SecdMachine

namespace Pipeline

variable {α β : Type}

structure Alike (left right : State) : Prop where
  work : left.work = right.work
  out : left.out = right.out
  listing : left.listing = right.listing
  written : left.written [.out, .listing, .trace] = right.written [.out, .listing, .trace]

theorem Alike.store {left right : State} (alike : Alike left right) : left.store = right.store :=
  congrArg Work.store alike.work

theorem Works.unaware {stage : Stage α} (works : Works stage) :
    Confined Alike State.input stage := by
  obtain ⟨effect, performs⟩ := works
  constructor
  · intro left right alike
    rw [performs, performs, alike.work]
    refine ⟨rfl, rfl, alike.out, alike.listing, ?_⟩
    rw [written_worked, written_worked, alike.written]
  · intro state
    rw [performs]
    rfl

theorem unaware_print (value : Value) : Confined Alike State.input (print value) := by
  constructor
  · intro left right alike
    rw [perform_print, perform_print, alike.store, alike.out]
    refine ⟨rfl, alike.work, ?_, alike.listing, ?_⟩
    · simp only [State.printed, alike.store, alike.out]
    · rw [written_printed, written_printed, alike.written, alike.store, alike.out]
  · intro state
    rw [perform_print]
    rfl

theorem unaware_list (code : Value) : Confined Alike State.input (list code) := by
  constructor
  · intro left right alike
    rw [perform_list, perform_list, alike.store, alike.listing]
    cases right.listing with
    | none => exact ⟨rfl, alike⟩
    | some sink =>
        simp only [Option.map_some]
        rcases sink.write (Listing.text right.store code "program") with ⟨_ | _, after⟩
        · refine ⟨rfl, alike.work, alike.out, rfl, ?_⟩
          rw [written_listed, written_listed, alike.written]
        · exact ⟨rfl, alike⟩
  · intro state
    rw [perform_list]
    cases state.listing with
    | none => rfl
    | some sink =>
        simp only [Option.map_some]
        rcases sink.write (Listing.text state.store code "program") with ⟨_ | _, after⟩ <;> rfl

theorem unaware_announce (pipeline : Pipeline) (code : Value) :
    Confined Alike State.input (pipeline.announce code) := by
  unfold announce
  split
  · exact (unaware_print code).bind fun _ => unaware_list code
  · exact unaware_list code

def prepare (pipeline : Pipeline) (program : Value) : Stage Value := do
  print program
  pipeline.compile program

theorem stages_eq (pipeline : Pipeline) :
    pipeline.stages = (do
      let program ← readProgram
      let code ← pipeline.prepare program
      let arguments ← readArguments
      pipeline.conclude code arguments) := by
  simp only [stages, prepare, conclude, bind_assoc]

theorem unaware_prepare (pipeline : Pipeline) (program : Value) :
    Confined Alike State.input (pipeline.prepare program) := by
  rw [prepare, compile_eq]
  exact (unaware_print program).bind fun _ => (works_produce pipeline program).unaware.bind
    fun code => (unaware_announce pipeline code).bind fun _ => confined_pure code

theorem unaware_conclude (pipeline : Pipeline) (code arguments : Value) :
    Confined Alike State.input (pipeline.conclude code arguments) :=
  (unaware_print arguments).bind fun _ =>
    (works_execute pipeline "run" code arguments).unaware.bind fun result =>
      (unaware_print result).bind fun _ => confined_pure result

theorem Alike.fed {left right : State} (alike : Alike left right) (what : String)
    (input other : Reader × LineSource × ArgumentInput) (outcome : Except ReadError Datum)
    (prompts more : List String) :
    Alike (left.fed what input outcome prompts) (right.fed what other outcome more) := by
  refine ⟨?_, alike.out, alike.listing, ?_⟩
  · rw [work_fed, work_fed, alike.work]
  · rw [written_fed, written_fed, alike.written]
    simp

theorem readProgram_alike {left right : State} (alike : Alike left right)
    (same : (left.reader.read left.source).outcome = (right.reader.read right.source).outcome) :
    Matching Alike (perform readProgram left) (perform readProgram right) := by
  obtain ⟨prompts, here⟩ := perform_readProgram left
  obtain ⟨others, there⟩ := perform_readProgram right
  rw [here, there]
  simp only [same, alike.store]
  exact ⟨rfl, alike.fed _ _ _ _ _ _⟩

theorem readArguments_alike {left right : State} (alike : Alike left right)
    (same : left.argumentReading.outcome = right.argumentReading.outcome) :
    Matching Alike (perform readArguments left) (perform readArguments right) := by
  obtain ⟨prompts, here⟩ := perform_readArguments left
  obtain ⟨others, there⟩ := perform_readArguments right
  rw [here, there, same, alike.store]
  exact ⟨rfl, alike.fed _ _ _ _ _ _⟩

def State.argumentsAfterProgram (state : State) : Reader.Reading :=
  let reading := state.reader.read state.source
  State.argumentReading { state with reader := reading.reader, source := reading.source }

theorem argumentReading_after_prepare (pipeline : Pipeline) (program : Value) (state : State) :
    (perform (pipeline.prepare program) (perform readProgram state).2).2.argumentReading =
      state.argumentsAfterProgram := by
  obtain ⟨prompts, performed⟩ := perform_readProgram state
  apply argumentReading_of_input
  rw [(unaware_prepare pipeline program).kept, performed]
  rfl

/-- Of its input a pipeline sees nothing but the two expressions that it reads. -/
theorem run_alike (pipeline : Pipeline) {left right : State} (alike : Alike left right)
    (program : (left.reader.read left.source).outcome = (right.reader.read right.source).outcome)
    (arguments : left.argumentsAfterProgram.outcome = right.argumentsAfterProgram.outcome) :
    Matching Alike (pipeline.run left) (pipeline.run right) := by
  have runs : ∀ state, pipeline.run state = perform pipeline.stages state := fun _ => rfl
  rw [runs, runs, stages_eq]
  have first := readProgram_alike alike program
  refine first.bind fun program => ?_
  have second := (unaware_prepare pipeline program).same first.2
  refine second.bind fun code => ?_
  have third : Matching Alike _ _ := readArguments_alike second.2 (by
    rw [argumentReading_after_prepare, argumentReading_after_prepare, arguments])
  refine third.bind fun arguments => ?_
  exact (unaware_conclude pipeline code arguments).same third.2

end Pipeline

def LineSource.Delivers (source : LineSource) (prompts : List String) (pending : List Delivery) :
    Prop :=
  ∃ policy, source.Offers policy pending ∧ ∀ prompt ∈ prompts, policy.Allows prompt

namespace Reader

def Divided (policy other : PromptPolicy) (more : List Delivery) (left right : LineSource) : Prop :=
  ∃ lines : List Delivery, (∀ delivery ∈ lines, delivery.ending? = none) ∧
    left.Offers policy lines ∧ right.Offers other (lines ++ {} :: more)

def Spent (policy other : PromptPolicy) (more : List Delivery) (left right : LineSource) : Prop :=
  left.Offers policy [] ∧ right.Offers other more

theorem answerAlike_divided {prompt : String} {policy other : PromptPolicy}
    (allows : policy.Allows prompt) (alsoAllows : other.Allows prompt) (more : List Delivery) :
    AnswerAlike prompt (Divided policy other more) (Spent policy other more) := by
  rintro left right ⟨lines, unending, here, there⟩
  obtain ⟨answer, after⟩ := here.next allows
  obtain ⟨sameAnswer, alsoAfter⟩ := there.next alsoAllows
  rw [answer, sameAnswer]
  cases lines with
  | nil => exact Or.inl ⟨none, rfl, rfl, after, alsoAfter⟩
  | cons delivery rest =>
      have goesOn := unending delivery (by simp)
      refine Or.inr ⟨goesOn, goesOn, rfl, rest, ?_, after, alsoAfter⟩
      intro later member
      exact unending later (by simp [member])

theorem tokens_eq_nil_of_lookaheadClass {reader : Reader} (ends : reader.lookaheadClass = "EOF") :
    reader.tokens = [] := by
  obtain ⟨prompt, found, stage⟩ := reader
  cases found with
  | nil => rfl
  | cons token rest =>
      have different : ∀ number ∈ [1, 2, 3], Token.classNameOf number ≠ "EOF" := by decide
      cases token with
      | numeric text => exact absurd ends (different 1 (by simp))
      | word text => exact absurd ends (different 2 (by simp))
      | delimiter char => exact absurd ends (different 3 (by simp))

theorem ended_of_read {reader : Reader} {source : LineSource} {datum : Datum}
    (read : (reader.read source).outcome = .ok datum)
    (ends : (reader.read source).reader.lookaheadClass = "EOF") :
    (reader.read source).reader.tokens = [] ∧ (reader.read source).reader.stage = .ended none := by
  have used := tokens_eq_nil_of_lookaheadClass ends
  refine ⟨used, ?_⟩
  rcases known_read reader source with some | ⟨failure, ended⟩
  · exact absurd used some
  · cases failure with
    | none => exact ended
    | some failure =>
        -- A source that fails hides the expression, but one has been read.
        rw [read_of_failed reader source ended] at read
        cases read

theorem nextRead_of_ended {reader : Reader} {failure : Option SourceError}
    (used : reader.tokens = []) (ended : reader.stage = .ended failure) (source : LineSource)
    (reads : Nat) :
    reader.nextRead source reads =
      ⟨.error (failure.elim .endOfInput .source), reader, source⟩ := by
  have stays : reader.afterReads source reads = (reader, source) := by
    induction reads with
    | zero => rfl
    | succ reads ih => simp only [afterReads, ih, read_of_ended used ended]
  simp only [nextRead, stays, read_of_ended used ended]

/-- The lines before an empty one are read as they are read alone. -/
theorem read_before_empty_line {lines more : List Delivery} {prompt : String}
    {prompts : List String} {alone shared : LineSource} {datum : Datum}
    (unending : ∀ delivery ∈ lines, delivery.ending? = none)
    (before : alone.Delivers [prompt] lines)
    (whole : shared.Delivers prompts (lines ++ {} :: more)) (known : prompt ∈ prompts)
    (read : (Reader.read { prompt := prompt } alone).outcome = .ok datum)
    (ends : (Reader.read { prompt := prompt } alone).reader.lookaheadClass = "EOF") :
    let reading := Reader.read { prompt := prompt } shared
    reading.outcome = .ok datum ∧ reading.reader.tokens = [] ∧
      reading.reader.stage = .ended none ∧ reading.source.Delivers prompts more := by
  intro reading
  obtain ⟨policy, offers, allows⟩ := before
  obtain ⟨other, alsoOffers, alsoAllows⟩ := whole
  have alike := answerAlike_divided (allows prompt (by simp)) (alsoAllows prompt known) more
  have start : Between prompt (Divided policy other more) (Spent policy other more)
    { prompt := prompt } alone shared := ⟨rfl, lines, unending, offers, alsoOffers⟩
  obtain ⟨sameOutcome, sameReader, _, after⟩ := start.read alike
  obtain ⟨used, ended⟩ := ended_of_read read ends
  rw [ended] at after
  rw [sameReader] at used ended
  exact ⟨sameOutcome.symm.trans read, used, ended, other, after.2.2, alsoAllows⟩

theorem nextRead_of_delivers {left right : LineSource} {prompts others : List String}
    {pending : List Delivery} {prompt : String} (here : left.Delivers prompts pending)
    (there : right.Delivers others pending) (known : prompt ∈ prompts) (alsoKnown : prompt ∈ others)
    (reads : Nat) :
    let reading := Reader.nextRead { prompt := prompt } left reads
    let other := Reader.nextRead { prompt := prompt } right reads
    reading.outcome = other.outcome ∧ reading.reader = other.reader ∧
      reading.source.pending = other.source.pending := by
  obtain ⟨policy, offers, allows⟩ := here
  obtain ⟨other, alsoOffers, alsoAllows⟩ := there
  have alike := answerAlike_sameLines (allows prompt known) (alsoAllows prompt alsoKnown)
  have start : Between prompt (SameLines policy other) (SameLines policy other)
    { prompt := prompt } left right := ⟨rfl, pending, offers, alsoOffers⟩
  obtain ⟨outcome, reader, between⟩ := start.nextRead alike reads
  obtain ⟨_, after, alsoAfter⟩ := between.sameLines
  exact ⟨outcome, reader, after.pending.trans alsoAfter.pending.symm⟩

end Reader

/-- An empty line divides a source. The first reader takes the lines before it, which hold one
expression, and the empty line, and never another one. A second reader finds what follows as if it
stood in a source of its own, and so does a pipeline. -/
theorem empty_line_divides_the_source (lines : List (List Char)) (more : List Delivery)
    (first second : String) (alone rest shared : LineSource) (datum : Datum)
    (nonempty : ∀ line ∈ lines, line ≠ [])
    (program : alone.Delivers [first] (lines.map fun line => { line := line }))
    (arguments : rest.Delivers [second] more)
    (both : shared.Delivers [first, second]
      (lines.map (fun line => { line := line }) ++ {} :: more))
    (reads : (Reader.read { prompt := first } alone).outcome = .ok datum)
    (ends : (Reader.read { prompt := first } alone).reader.lookaheadClass = "EOF") :
    let reading := Reader.read { prompt := first } shared
    reading.outcome = .ok datum ∧
    reading.source.pending = more ∧
    (∀ source count,
      reading.reader.nextRead source count = ⟨.error .endOfInput, reading.reader, source⟩) ∧
    (∀ count,
      let next := Reader.nextRead { prompt := second } reading.source count
      let separate := Reader.nextRead { prompt := second } rest count
      next.outcome = separate.outcome ∧ next.reader = separate.reader ∧
        next.source.pending = separate.source.pending) ∧
    ∀ (pipeline : Pipeline) (state : Pipeline.State),
      Pipeline.Matching Pipeline.Alike
        (pipeline.run { state with
          reader := { prompt := first }
          source := shared
          arguments := .sameSource { prompt := second } })
        (pipeline.run { state with
          reader := { prompt := first }
          source := alone
          arguments := .separate { prompt := second } rest }) := by
  intro reading
  have unending : ∀ delivery ∈ lines.map fun line => ({ line := line } : Delivery),
      delivery.ending? = none := by
    intro delivery member
    obtain ⟨line, inside, rfl⟩ := List.mem_map.mp member
    exact Delivery.ending?_of_line (nonempty line inside)
  obtain ⟨outcome, used, ended, left⟩ :=
    Reader.read_before_empty_line unending program both (by simp) reads ends
  have known : second ∈ [first, second] := by simp
  have follows := Reader.nextRead_of_delivers left arguments known (by simp)
  refine ⟨outcome, left.choose_spec.1.pending, ?_, follows, ?_⟩
  · intro source count
    exact Reader.nextRead_of_ended used ended source count
  · intro pipeline state
    refine pipeline.run_alike ⟨rfl, rfl, rfl, rfl⟩ ?_ ?_
    · exact outcome.trans reads.symm
    · exact (follows 0).1

theorem openProgram_is_divided_from_arguments :
    let lines := ["(2 5", " 21"].map String.toList
    let more : List Delivery := ["(7)", "8"].map fun line => { line := line.toList }
    let alone : LineSource := { pending := lines.map fun line => { line := line } }
    let rest : LineSource := { pending := more, policy := .check }
    let shared : LineSource :=
      { pending := lines.map (fun line => { line := line }) ++ {} :: more, policy := .show }
    let reading := Reader.read { prompt := "? " } shared
    reading.outcome = .ok (.ofList [.integer 2, .integer 5, .integer 21]) ∧
    reading.source.pending = more ∧
    (Reader.read { prompt := "" } reading.source).outcome = .ok (.ofList [.integer 7]) ∧
    ∀ (pipeline : Pipeline) (state : Pipeline.State),
      Pipeline.Matching Pipeline.Alike
        (pipeline.run { state with
          reader := { prompt := "? " }
          source := shared
          arguments := .sameSource { prompt := "" } })
        (pipeline.run { state with
          reader := { prompt := "? " }
          source := alone
          arguments := .separate { prompt := "" } rest }) := by
  intro lines more alone rest shared reading
  have divided := empty_line_divides_the_source lines more "? " "" alone rest shared
    (.ofList [.integer 2, .integer 5, .integer 21]) (by decide)
    ⟨.ignore, ⟨rfl, rfl, rfl⟩, by decide⟩ ⟨.check, ⟨rfl, rfl, rfl⟩, by decide⟩
    ⟨.show, ⟨rfl, rfl, rfl⟩, by decide⟩ (by decide) (by decide)
  obtain ⟨outcome, pending, _, follows, runs⟩ := divided
  exact ⟨outcome, pending, (follows 0).1.trans (by decide), runs⟩

end SecdMachine
