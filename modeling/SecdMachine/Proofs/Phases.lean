import SecdMachine.Proofs.Stages
import SecdMachine.Proofs.Wrapping

/-!
What a pipeline shows. It goes from phase to phase, each of them reached by a stage that shows
nothing, and shows what a phase has brought as soon as it is reached. So the output is that of the
phases reached, in their order, whatever it is that ends the run.
-/

namespace SecdMachine

namespace Pipeline

inductive Showing where
  | printed (store : Store) (value : Value)
  | listed (store : Store) (code : Value)

structure Display where
  out : Writer
  listing : Option Sink
  written : List (Channel × String)

def State.display (state : State) : Display :=
  ⟨state.out, state.listing, state.written [.out, .listing]⟩

namespace Display

structure Willing (display : Display) : Prop where
  accepted : display.out.failure = none
  unlimited : display.out.sink.capacity = none
  listing : ∀ sink, display.listing = some sink → sink.capacity = none

def after (display : Display) : Showing → Display
  | .printed store value => { display with
      out := display.out.putLine store value
      written := display.written ++
        (display.out.linesOf store value).map fun line => (.out, line) }
  | .listed store code =>
      let text := Listing.text store code "program"
      { display with
        listing := display.listing.map fun sink => { sink with written := sink.written.push text }
        written := display.written ++ if display.listing.isSome then [(.listing, text)] else [] }

theorem Willing.after {display : Display} (willing : display.Willing) (showing : Showing) :
    (display.after showing).Willing := by
  obtain ⟨accepted, unlimited, listing⟩ := willing
  cases showing with
  | printed store value =>
      refine ⟨?_, ?_, listing⟩
      · simp only [Display.after, Writer.putLine_eq_linesOf accepted unlimited, accepted]
      · simp only [Display.after, Writer.putLine_eq_linesOf accepted unlimited, unlimited]
  | listed store code =>
      refine ⟨accepted, unlimited, ?_⟩
      intro sink added
      obtain ⟨before, found, rfl⟩ := Option.map_eq_some_iff.mp added
      exact listing before found

end Display

structure Parallel (left right : State) : Prop where
  work : left.work = right.work
  input : left.input = right.input

theorem Parallel.store {left right : State} (parallel : Parallel left right) :
    left.store = right.store :=
  congrArg Work.store parallel.work

theorem Parallel.trans {left middle right : State} (first : Parallel left middle)
    (second : Parallel middle right) : Parallel left right :=
  ⟨first.work.trans second.work, first.input.trans second.input⟩

abbrev Quiet (stage : Stage Value) : Prop :=
  Confined Parallel State.display stage

theorem Works.quiet {stage : Stage Value} (works : Works stage) : Quiet stage := by
  obtain ⟨effect, performs⟩ := works
  constructor
  · intro left right parallel
    rw [performs, performs, parallel.work]
    exact ⟨rfl, rfl, parallel.input⟩
  · intro state
    rw [performs, State.display, written_worked]
    simp [State.display, State.worked]

theorem display_fed (state : State) (what : String) (input : Reader × LineSource × ArgumentInput)
    (outcome : Except ReadError Datum) (prompts : List String) :
    (state.fed what input outcome prompts).display = state.display := by
  rw [State.display, written_fed]
  simp [State.display, State.fed]

theorem Parallel.fed {left right : State} (parallel : Parallel left right) (what : String)
    (input : Reader × LineSource × ArgumentInput) (outcome : Except ReadError Datum)
    (prompts others : List String) :
    Parallel (left.fed what input outcome prompts) (right.fed what input outcome others) := by
  refine ⟨?_, rfl⟩
  rw [work_fed, work_fed, parallel.work]

theorem quiet_readProgram : Quiet readProgram := by
  constructor
  · intro left right parallel
    obtain ⟨prompts, here⟩ := perform_readProgram left
    obtain ⟨others, there⟩ := perform_readProgram right
    have same := parallel.input
    simp only [State.input, Prod.mk.injEq] at same
    obtain ⟨reader, source, arguments⟩ := same
    rw [here, there, reader, source, arguments, parallel.store]
    exact ⟨rfl, parallel.fed _ _ _ _ _⟩
  · intro state
    obtain ⟨prompts, performed⟩ := perform_readProgram state
    rw [performed]
    exact display_fed _ _ _ _ _

theorem quiet_readArguments : Quiet readArguments := by
  constructor
  · intro left right parallel
    obtain ⟨prompts, here⟩ := perform_readArguments left
    obtain ⟨others, there⟩ := perform_readArguments right
    rw [here, there, argumentReading_of_input parallel.input,
      argumentsTaken_of_input parallel.input, parallel.store]
    exact ⟨rfl, parallel.fed _ _ _ _ _⟩
  · intro state
    obtain ⟨prompts, performed⟩ := perform_readArguments state
    rw [performed]
    exact display_fed _ _ _ _ _

inductive Phase where
  | begun
  | hasProgram (program : Value)
  | hasCode (code : Value)
  | hasArguments (code arguments : Value)
  | hasResult (result : Value)

def showings (pipeline : Pipeline) (store : Store) : Phase → List Showing
  | .begun => []
  | .hasProgram program => [.printed store program]
  | .hasCode code =>
      if !pipeline.skipCompile || pipeline.assemble then [.printed store code, .listed store code]
      else [.listed store code]
  | .hasArguments _ arguments => [.printed store arguments]
  | .hasResult result => [.printed store result]

/-- The stage that leads on from a phase, and the phase it leads to. -/
def next? (pipeline : Pipeline) : Phase → Option (Stage Value × (Value → Phase))
  | .begun => some (readProgram, .hasProgram)
  | .hasProgram program => some (pipeline.produce program, .hasCode)
  | .hasCode code => some (readArguments, .hasArguments code)
  | .hasArguments code arguments => some (pipeline.execute "run" code arguments, .hasResult)
  | .hasResult _ => none

/-- The phases that a pipeline reaches from a phase on, each with the store at that time, and what
comes of it. A stage that fails is the last one. -/
inductive Course (pipeline : Pipeline) :
    State → Phase → List (Phase × Store) → Except PipelineError Value → Prop where
  | ends {state : State} {result : Value} :
      Course pipeline state (.hasResult result) [] (.ok result)
  | fails {state after : State} {phase : Phase} {stage : Stage Value} {reach : Value → Phase}
      {error : PipelineError} (next : pipeline.next? phase = some (stage, reach))
      (performed : perform stage state = (.error error, after)) :
      Course pipeline state phase [] (.error error)
  | goesOn {state after : State} {phase : Phase} {stage : Stage Value} {reach : Value → Phase}
      {value : Value} {reached : List (Phase × Store)} {outcome : Except PipelineError Value}
      (next : pipeline.next? phase = some (stage, reach))
      (performed : perform stage state = (.ok value, after))
      (later : Course pipeline after (reach value) reached outcome) :
      Course pipeline state phase ((reach value, after.store) :: reached) outcome

def present (pipeline : Pipeline) : Phase → Stage Unit
  | .begun => pure ()
  | .hasProgram program => print program
  | .hasCode code => pipeline.announce code
  | .hasArguments _ arguments => print arguments
  | .hasResult result => print result

def toCome (pipeline : Pipeline) : Phase → Stage Value
  | .begun => pipeline.stages
  | .hasProgram program => do
      let code ← pipeline.compile program
      let arguments ← readArguments
      pipeline.conclude code arguments
  | .hasCode code => do
      let arguments ← readArguments
      pipeline.conclude code arguments
  | .hasArguments code arguments => do
      let result ← pipeline.execute "run" code arguments
      print result
      return result
  | .hasResult result => pure result

theorem toCome_eq {pipeline : Pipeline} {phase : Phase} {stage : Stage Value}
    {reach : Value → Phase} (next : pipeline.next? phase = some (stage, reach)) :
    pipeline.toCome phase = (do
      let value ← stage
      pipeline.present (reach value)
      pipeline.toCome (reach value)) := by
  cases phase with
  | begun | hasCode code | hasArguments code arguments =>
      cases next
      rfl
  | hasProgram program =>
      cases next
      simp only [toCome, compile_eq, present, bind_assoc, pure_bind]
  | hasResult result => cases next

structure Shown (start : State) (showings : List Showing) (state : State) : Prop where
  parallel : Parallel start state
  display : state.display = showings.foldl Display.after start.display

theorem shown_print {state : State} (willing : state.display.Willing) (value : Value) :
    ∃ after, perform (print value) state = (.ok (), after) ∧
      Shown state [.printed state.store value] after := by
  have putting := Writer.putLine_eq_linesOf willing.accepted willing.unlimited state.store value
  have accepted := willing.accepted
  simp only [State.display] at putting accepted
  refine ⟨state.printed value, ?_, ⟨rfl, rfl⟩, ?_⟩
  · simp [perform_print, putting, accepted]
  · rw [State.display, written_printed, putting]
    simp [State.display, State.printed, Display.after, putting]

theorem shown_list {state : State} (willing : state.display.Willing) (code : Value) :
    ∃ after, perform (list code) state = (.ok (), after) ∧
      Shown state [.listed state.store code] after := by
  rw [perform_list]
  cases wanted : state.listing with
  | none =>
      refine ⟨state, rfl, ⟨rfl, rfl⟩, ?_⟩
      simp [State.display, Display.after, wanted]
  | some sink =>
      have writing := Sink.write_unlimited (willing.listing sink wanted)
        (Listing.text state.store code "program")
      simp only [Option.map_some, writing]
      refine ⟨_, rfl, ⟨rfl, rfl⟩, ?_⟩
      rw [State.display, written_listed]
      simp [State.display, State.listed, Display.after, wanted]

theorem Shown.trans {start middle state : State} {showings more : List Showing}
    (first : Shown start showings middle) (second : Shown middle more state) :
    Shown start (showings ++ more) state := by
  refine ⟨first.parallel.trans second.parallel, ?_⟩
  rw [second.display, first.display, List.foldl_append]

theorem Shown.willing {start state : State} {showings : List Showing}
    (shown : Shown start showings state) (willing : start.display.Willing) :
    state.display.Willing := by
  rw [shown.display]
  generalize start.display = display at willing
  clear shown
  induction showings generalizing display with
  | nil => exact willing
  | cons showing rest ih => exact ih _ (willing.after showing)

theorem shown_present (pipeline : Pipeline) (phase : Phase) {state : State}
    (willing : state.display.Willing) :
    ∃ after, perform (pipeline.present phase) state = (.ok (), after) ∧
      Shown state (pipeline.showings state.store phase) after := by
  cases phase with
  | begun => exact ⟨state, rfl, ⟨rfl, rfl⟩, rfl⟩
  | hasProgram value | hasArguments _ value | hasResult value => exact shown_print willing value
  | hasCode code =>
      by_cases prints : (!pipeline.skipCompile || pipeline.assemble) = true
      · obtain ⟨middle, printed, first⟩ := shown_print willing code
        obtain ⟨after, listed, second⟩ := shown_list (first.willing willing) code
        refine ⟨after, ?_, ?_⟩
        · rw [present, announce, if_pos prints, perform_bind, printed]
          exact listed
        · rw [← first.parallel.store] at second
          rw [showings, if_pos prints]
          exact first.trans second
      · obtain ⟨after, listed, shown⟩ := shown_list willing code
        refine ⟨after, ?_, ?_⟩
        · rw [present, announce, if_neg prints]
          exact listed
        · rw [showings, if_neg prints]
          exact shown

def shownFor (pipeline : Pipeline) (reached : List (Phase × Store)) : List Showing :=
  reached.flatMap fun entry => pipeline.showings entry.2 entry.1

theorem shownFor_cons (pipeline : Pipeline) (phase : Phase) (store : Store)
    (reached : List (Phase × Store)) :
    pipeline.shownFor ((phase, store) :: reached) =
      pipeline.showings store phase ++ pipeline.shownFor reached :=
  rfl

def Accounted (pipeline : Pipeline) (phase : Phase) : Prop :=
  ∀ silent state, Parallel silent state → state.display.Willing →
    ∃ reached, Course pipeline silent phase reached (perform (pipeline.toCome phase) state).1 ∧
      (perform (pipeline.toCome phase) state).2.display =
        (pipeline.shownFor reached).foldl Display.after state.display

theorem accounted_hasResult (pipeline : Pipeline) (result : Value) :
    pipeline.Accounted (.hasResult result) := by
  intro silent state _ _
  exact ⟨[], .ends, rfl⟩

theorem accounted_of_next {pipeline : Pipeline} {phase : Phase} {stage : Stage Value}
    {reach : Value → Phase} (next : pipeline.next? phase = some (stage, reach))
    (quiet : Quiet stage) (later : ∀ value, pipeline.Accounted (reach value)) :
    pipeline.Accounted phase := by
  intro silent state parallel willing
  obtain ⟨outcome, still⟩ := quiet.same parallel
  have kept := quiet.kept state
  rw [toCome_eq next, perform_bind]
  cases silently : perform stage silent with
  | mk result silentAfter =>
  generalize perform stage state = performed at outcome still kept ⊢
  obtain ⟨sameResult, after⟩ := performed
  rw [silently] at outcome still
  simp only at outcome still kept ⊢
  subst outcome
  cases result with
  | error error => exact ⟨[], .fails next silently, kept⟩
  | ok value =>
      -- What the phase shows keeps the two states parallel, so the rest follows from there.
      rw [← kept] at willing
      obtain ⟨presented, presents, shown⟩ := shown_present pipeline (reach value) willing
      obtain ⟨reached, course, display⟩ := later value silentAfter presented
        (still.trans shown.parallel) (shown.willing willing)
      simp only [perform_bind, presents]
      refine ⟨_, .goesOn next silently course, ?_⟩
      rw [display, shown.display, kept, still.store, shownFor_cons, List.foldl_append]

theorem accounted_begun (pipeline : Pipeline) : pipeline.Accounted .begun :=
  accounted_of_next rfl quiet_readProgram fun program =>
    accounted_of_next rfl (works_produce pipeline program).quiet fun code =>
      accounted_of_next rfl quiet_readArguments fun arguments =>
        accounted_of_next rfl (works_execute pipeline "run" code arguments).quiet fun result =>
          accounted_hasResult pipeline result

theorem ne_hasResult_of_next {pipeline : Pipeline} {phase : Phase}
    {step : Stage Value × (Value → Phase)} (next : pipeline.next? phase = some step)
    (result : Value) : phase ≠ .hasResult result := by
  rintro rfl
  cases next

theorem Course.outcome_eq_ok_iff {pipeline : Pipeline} {state : State} {phase : Phase}
    {reached : List (Phase × Store)} {outcome : Except PipelineError Value}
    (course : Course pipeline state phase reached outcome) (result : Value) :
    outcome = .ok result ↔
      phase = .hasResult result ∨ ∃ store, (.hasResult result, store) ∈ reached := by
  induction course with
  | ends => simp
  | fails next performed => simp [ne_hasResult_of_next next]
  | goesOn next performed later ih =>
      rw [ih]
      simp [ne_hasResult_of_next next, exists_or, eq_comm]

def code? (pipeline : Pipeline) (start : State) : Option (Value × Store) :=
  match perform readProgram start with
  | (.error _, _) => none
  | (.ok program, read) =>
      match perform (pipeline.produce program) read with
      | (.error _, _) => none
      | (.ok code, produced) => some (code, produced.store)

theorem listing_of_hasCode {pipeline : Pipeline} {state : State} {phase : Phase}
    {reached : List (Phase × Store)} {outcome : Except PipelineError Value}
    (course : Course pipeline state phase reached outcome)
    (coded : ∀ program, phase ≠ .begun ∧ phase ≠ .hasProgram program) (display : Display) :
    ((pipeline.shownFor reached).foldl Display.after display).listing = display.listing := by
  induction course generalizing display with
  | ends | fails => rfl
  | @goesOn state after phase stage reach value reached outcome next performed later ih =>
      rw [shownFor_cons, List.foldl_append]
      cases phase with
      | begun => exact absurd rfl (coded value).1
      | hasProgram program => exact absurd rfl (coded program).2
      | hasResult result => cases next
      | hasCode code | hasArguments code arguments =>
          -- Arguments and results are printed, which leaves the listing as it is.
          cases next
          exact ih (by simp) _

theorem Course.listing {pipeline : Pipeline} {start : State} {reached : List (Phase × Store)}
    {outcome : Except PipelineError Value} (course : Course pipeline start .begun reached outcome)
    (display : Display) :
    ((pipeline.shownFor reached).foldl Display.after display).listing =
      match pipeline.code? start with
      | none => display.listing
      | some (code, store) => display.listing.map fun sink =>
          { sink with written := sink.written.push (Listing.text store code "program") } := by
  cases course with
  | fails next performed =>
      cases next
      rw [code?, performed]
      rfl
  | goesOn next performed later =>
      cases next
      rw [code?, performed]
      cases later with
      | fails next performed =>
          cases next
          simp only [performed]
          rfl
      | goesOn next performed later =>
          cases next
          rw [shownFor_cons, shownFor_cons, List.foldl_append, List.foldl_append,
            listing_of_hasCode later (by simp)]
          simp only [performed, showings]
          split <;> rfl

/-- What a pipeline writes is exactly what is shown for the phases it reaches, and these stop before
the first stage that fails. The result is shown if and only if there is one. The listing grows by one
text, that of the code to run, if and only if there is such code. -/
theorem output_is_that_of_the_phases_reached (pipeline : Pipeline) (start : State)
    (willing : start.display.Willing) :
    ∃ reached, Course pipeline start .begun reached (pipeline.run start).1 ∧
      (pipeline.run start).2.display =
        (pipeline.shownFor reached).foldl Display.after start.display ∧
      (∀ result, (pipeline.run start).1 = .ok result ↔
        ∃ store, (.hasResult result, store) ∈ reached) ∧
      (pipeline.run start).2.listing =
        match pipeline.code? start with
        | none => start.listing
        | some (code, store) => start.listing.map fun sink =>
            { sink with written := sink.written.push (Listing.text store code "program") } := by
  have runs : pipeline.run start = perform (pipeline.toCome .begun) start := rfl
  obtain ⟨reached, course, display⟩ := accounted_begun pipeline start start ⟨rfl, rfl⟩ willing
  rw [runs]
  refine ⟨reached, course, display, ?_, ?_⟩
  · intro result
    simpa using course.outcome_eq_ok_iff result
  · have listing := course.listing start.display
    rw [← display] at listing
    exact listing

theorem divisionByZero_leaves_earlier_output :
    let pipeline : Pipeline := { skipCompile := true, assemble := true, fuel := 10 }
    let start : State := {
      store := {}
      reader := {}
      source := .ofText "(LDC 1 LDC 0 DIV STOP) (7)".toList
      arguments := .sameReader
      out := {}
      listing := some {}
      trace := none
      supervisor := {} }
    let listing := "; === program ===\n0000  LDC 1\n0001  LDC 0\n0002  DIV\n0003  STOP\n"
    start.display.Willing ∧
    ∃ reached, Course pipeline start .begun reached (pipeline.run start).1 ∧
      ((pipeline.shownFor reached).foldl Display.after start.display).written =
        [(.out, "( LDC 1 LDC 0 DIV STOP ) \n"), (.out, "( 2 1 2 0 18 21 ) \n"),
          (.listing, listing), (.out, "( 7 ) \n")] ∧
      ∀ result store, (.hasResult result, store) ∉ reached := by
  intro pipeline start listing
  have willing : start.display.Willing := by
    refine ⟨rfl, rfl, ?_⟩
    rintro _ ⟨⟩
    rfl
  obtain ⟨reached, course, display, finished, _⟩ :=
    output_is_that_of_the_phases_reached pipeline start willing
  refine ⟨willing, reached, course, ?_, ?_⟩
  · rw [← display]
    decide +kernel
  · intro result store member
    have failed : (pipeline.run start).1.toOption = none := by decide +kernel
    rw [(finished result).mpr ⟨store, member⟩] at failed
    cases failed

end Pipeline

end SecdMachine
