import Mathlib.Tactic.Choose
import SecdMachine.Pipeline

/-!
The stages of a pipeline and what each of them touches. Reading changes the input and adds to the
store, running works on the store with the trace and the supervisor, and only printing and listing
reach the output. So a stage gives the same whatever the parts are that it does not touch.
-/

namespace SecdMachine

namespace Pipeline

variable {α β γ : Type}

def perform (stage : Stage α) (state : State) : Except PipelineError α × State :=
  stage.run.run state

theorem perform_pure (value : α) (state : State) :
    perform (pure value) state = (.ok value, state) :=
  rfl

theorem perform_throw (error : PipelineError) (state : State) :
    perform (throw error : Stage α) state = (.error error, state) :=
  rfl

theorem perform_get (state : State) : perform get state = (.ok state, state) :=
  rfl

theorem perform_set (state after : State) : perform (set after) state = (.ok ⟨⟩, after) :=
  rfl

theorem perform_modify (change : State → State) (state : State) :
    perform (modify change) state = (.ok ⟨⟩, change state) :=
  rfl

theorem perform_bind (stage : Stage α) (next : α → Stage β) (state : State) :
    perform (stage >>= next) state =
      match perform stage state with
      | (.ok value, after) => perform (next value) after
      | (.error error, after) => (.error error, after) := by
  simp only [perform]
  rw [ExceptT.run_bind, StateT.run_bind]
  rcases stage.run.run state with ⟨_ | _, after⟩ <;> rfl

def State.written (state : State) (channels : List Channel) : List (Channel × String) :=
  state.transcript.toList.filter fun entry => entry.1 ∈ channels

def State.input (state : State) : Reader × LineSource × ArgumentInput :=
  (state.reader, state.source, state.arguments)

def State.noted (state : State) (channel : Channel) (texts : List String) :
    Array (Channel × String) :=
  state.transcript ++ (texts.map fun text => (channel, text)).toArray

theorem transcribe_eq (channel : Channel) (before : Nat) (sink : Sink) (state : State) :
    transcribe channel before sink state.transcript =
      state.noted channel (sink.written.toList.drop before) := by
  rw [transcribe, State.noted]
  generalize sink.written.toList.drop before = texts
  generalize state.transcript = transcript
  induction texts generalizing transcript with
  | nil => simp
  | cons text rest ih =>
      rw [List.foldl_cons, ih]
      simp

theorem written_noted (state : State) (channel : Channel) (texts : List String)
    (channels : List Channel) :
    (state.noted channel texts).toList.filter (fun entry => entry.1 ∈ channels) =
      state.written channels ++
        if channel ∈ channels then texts.map fun text => (channel, text) else [] := by
  simp only [State.noted, State.written, Array.toList_append, List.filter_append, List.filter_map]
  by_cases inside : channel ∈ channels
  · have every : texts.filter (fun _ => true) = texts := List.filter_eq_self.mpr fun _ _ => rfl
    simp [Function.comp_def, inside, every]
  · simp [Function.comp_def, inside]

def State.printed (state : State) (value : Value) : State :=
  { state with
    out := state.out.putLine state.store value
    transcript := state.noted .out ((state.out.putLine state.store value).sink.written.toList.drop
      state.out.sink.written.size) }

theorem written_printed (state : State) (value : Value) (channels : List Channel) :
    (state.printed value).written channels = state.written channels ++
      if .out ∈ channels then
        ((state.out.putLine state.store value).sink.written.toList.drop
          state.out.sink.written.size).map fun text => (Channel.out, text)
      else [] :=
  written_noted state .out _ channels

theorem perform_print (value : Value) (state : State) :
    perform (print value) state =
      (match (state.out.putLine state.store value).failure with
        | none => .ok ()
        | some problem => .error (@PipelineError.refused problem),
        state.printed value) := by
  simp only [print, perform_bind, perform_get, perform_set, transcribe_eq]
  cases (state.out.putLine state.store value).failure with
  | none => exact perform_pure _ _
  | some problem => exact perform_throw _ _

def State.listed (state : State) (sink : Sink) (text : String) : State :=
  { state with listing := some sink, transcript := state.noted .listing [text] }

theorem written_listed (state : State) (sink : Sink) (text : String) (channels : List Channel) :
    (state.listed sink text).written channels =
      state.written channels ++ if .listing ∈ channels then [(.listing, text)] else [] :=
  written_noted state .listing [text] channels

theorem perform_list (code : Value) (state : State) :
    perform (list code) state =
      match state.listing.map fun sink => sink.write (Listing.text state.store code "program") with
      | none => (.ok (), state)
      | some (none, sink) =>
          (.ok (), state.listed sink (Listing.text state.store code "program"))
      | some (some problem, _) => (.error (@PipelineError.refused problem), state) := by
  simp only [list, perform_bind, perform_get]
  cases state.listing with
  | none => rfl
  | some sink =>
      simp only [Option.map_some]
      rcases sink.write (Listing.text state.store code "program") with ⟨_ | _, after⟩
      · simp [perform_set, State.listed, State.noted]
      · rfl

def received (what : String) (store : Store) :
    Except ReadError Datum → Except PipelineError Value × Store
  | .ok datum => (.ok (store.load datum).1, (store.load datum).2)
  | .error .endOfInput => (.error (.missing what), store)
  | .error error => (.error (.unreadable what error), store)

def State.fed (state : State) (what : String) (input : Reader × LineSource × ArgumentInput)
    (outcome : Except ReadError Datum) (prompts : List String) : State :=
  { state with
    reader := input.1
    source := input.2.1
    arguments := input.2.2
    store := (received what state.store outcome).2
    transcript := state.noted .prompt prompts }

theorem written_fed (state : State) (what : String) (input : Reader × LineSource × ArgumentInput)
    (outcome : Except ReadError Datum) (prompts : List String) (channels : List Channel) :
    (state.fed what input outcome prompts).written channels = state.written channels ++
      if .prompt ∈ channels then prompts.map fun text => (Channel.prompt, text) else [] :=
  written_noted state .prompt prompts channels

theorem perform_accept (what : String) (before : LineSource) (reading : Reader.Reading)
    (state : State) :
    perform (accept what before reading) state =
      ((received what state.store reading.outcome).1,
        state.fed what state.input reading.outcome
          (reading.source.prompts.written.toList.drop before.prompts.written.size)) := by
  obtain ⟨outcome, reader, source⟩ := reading
  simp only [accept, perform_bind, perform_modify, transcribe_eq]
  cases outcome with
  | ok datum => rfl
  | error error => cases error <;> rfl

theorem perform_readProgram (state : State) :
    ∃ prompts, perform readProgram state =
      let reading := state.reader.read state.source
      ((received "program" state.store reading.outcome).1,
        state.fed "program" (reading.reader, reading.source, state.arguments) reading.outcome
          prompts) := by
  simp only [readProgram, perform_bind, perform_get, perform_set, perform_accept]
  exact ⟨_, rfl⟩

def State.argumentReading (state : State) : Reader.Reading :=
  match state.arguments with
  | .sameReader => state.reader.read state.source
  | .sameSource reader => reader.read state.source
  | .separate reader source => reader.read source

def State.argumentsTaken (state : State) : Reader × LineSource × ArgumentInput :=
  match state.arguments, state.argumentReading with
  | .sameReader, reading => (reading.reader, reading.source, .sameReader)
  | .sameSource _, reading => (state.reader, reading.source, .sameSource reading.reader)
  | .separate _ _, reading => (state.reader, state.source, .separate reading.reader reading.source)

theorem argumentReading_of_input {state other : State} (same : state.input = other.input) :
    state.argumentReading = other.argumentReading := by
  simp only [State.input, Prod.mk.injEq] at same
  obtain ⟨reader, source, arguments⟩ := same
  rw [State.argumentReading, State.argumentReading, reader, source, arguments]

theorem argumentsTaken_of_input {state other : State} (same : state.input = other.input) :
    state.argumentsTaken = other.argumentsTaken := by
  have reading := argumentReading_of_input same
  simp only [State.input, Prod.mk.injEq] at same
  obtain ⟨reader, source, arguments⟩ := same
  rw [State.argumentsTaken, State.argumentsTaken, reading, reader, source, arguments]

theorem perform_readArguments (state : State) :
    ∃ prompts, perform readArguments state =
      ((received "arguments" state.store state.argumentReading.outcome).1,
        state.fed "arguments" state.argumentsTaken state.argumentReading.outcome prompts) := by
  obtain ⟨store, reader, source, arguments, out, listing, trace, supervisor, transcript⟩ := state
  cases arguments with
  | sameReader | sameSource other | separate other otherSource =>
      simp only [readArguments, perform_bind, perform_get, perform_set, perform_accept]
      exact ⟨_, rfl⟩

structure Work where
  store : Store
  trace : Option Sink
  supervisor : Supervisor

def State.work (state : State) : Work :=
  ⟨state.store, state.trace, state.supervisor⟩

theorem work_fed (state : State) (what : String) (input : Reader × LineSource × ArgumentInput)
    (outcome : Except ReadError Datum) (prompts : List String) :
    (state.fed what input outcome prompts).work =
      { state.work with store := (received what state.work.store outcome).2 } :=
  rfl

def State.worked (state : State) (work : Work) (traced : List String) : State :=
  { state with
    store := work.store
    trace := work.trace
    supervisor := work.supervisor
    transcript := state.noted .trace traced }

theorem written_worked (state : State) (work : Work) (traced : List String)
    (channels : List Channel) :
    (state.worked work traced).written channels = state.written channels ++
      if .trace ∈ channels then traced.map fun text => (Channel.trace, text) else [] :=
  written_noted state .trace traced channels

/-- A stage that does nothing but work, and that sees nothing else. -/
def Works (stage : Stage α) : Prop :=
  ∃ effect : Work → Except PipelineError α × Work × List String, ∀ state, perform stage state =
    ((effect state.work).1, state.worked (effect state.work).2.1 (effect state.work).2.2)

theorem worked_self (state : State) : state.worked state.work [] = state := by
  simp [State.worked, State.work, State.noted]

theorem worked_worked (state : State) (work further : Work) (traced more : List String) :
    (state.worked work traced).worked further more = state.worked further (traced ++ more) := by
  simp [State.worked, State.noted]

theorem works_pure (value : α) : Works (pure value : Stage α) := by
  refine ⟨fun work => (.ok value, work, []), ?_⟩
  intro state
  rw [perform_pure, worked_self]

theorem works_throw (error : PipelineError) : Works (throw error : Stage α) := by
  refine ⟨fun work => (.error error, work, []), ?_⟩
  intro state
  rw [perform_throw, worked_self]

theorem Works.bind {stage : Stage α} {next : α → Stage β} (first : Works stage)
    (rest : ∀ value, Works (next value)) : Works (stage >>= next) := by
  obtain ⟨effect, performs⟩ := first
  choose further goesOn using rest
  refine ⟨fun work =>
    match effect work with
    | (.ok value, after, traced) =>
        ((further value after).1, (further value after).2.1, traced ++ (further value after).2.2)
    | (.error error, after, traced) => (.error error, after, traced), ?_⟩
  intro state
  rw [perform_bind, performs]
  dsimp only
  rcases effect state.work with ⟨_ | value, after, traced⟩
  · rfl
  · simp only [goesOn, worked_worked]
    rfl

theorem Works.of_store {stage : Stage α} {next : Store → Stage α} (change : Store → Store)
    (works : ∀ store, Works (next store))
    (performs : ∀ state, perform stage state =
      perform (next state.store) { state with store := change state.store }) : Works stage := by
  choose further goesOn using works
  refine ⟨fun work => further work.store ⟨change work.store, work.trace, work.supervisor⟩, ?_⟩
  intro state
  rw [performs, goesOn]
  rfl

def ending (pipeline : Pipeline) (code arguments : Value) (work : Work) : Machine.Ending :=
  match Machine.load work.store code arguments with
  | (machine, store) =>
      Machine.run pipeline.fuel work.supervisor
        { machine with trace := work.trace, limit := pipeline.limit } store

def addedTrace (before after : Option Sink) : List String :=
  match after with
  | some sink => sink.written.toList.drop ((before.map fun sink => sink.written.size).getD 0)
  | none => []

theorem perform_execute (pipeline : Pipeline) (stage : String) (code arguments : Value)
    (state : State) :
    perform (pipeline.execute stage code arguments) state =
      let ending := pipeline.ending code arguments state.work
      (ending.outcome.mapError (.machine stage),
        state.worked ⟨ending.store, ending.machine.trace, ending.supervisor⟩
          (addedTrace state.trace ending.machine.trace)) := by
  have same : (Machine.run pipeline.fuel state.supervisor
      { (Machine.load state.store code arguments).1 with
        trace := state.trace, limit := pipeline.limit }
      (Machine.load state.store code arguments).2) =
        pipeline.ending code arguments state.work := rfl
  simp only [execute, perform_bind, perform_get, perform_set, same, transcribe_eq]
  obtain ⟨outcome, supervisor, ⟨registers, halted, steps, trace, limit⟩, store⟩ :=
    pipeline.ending code arguments state.work
  have unchanged : state.noted .trace [] = state.transcript := by simp [State.noted]
  cases outcome with
  | ok value | error error =>
      cases trace with
      | none =>
          simp only [State.worked, addedTrace, unchanged]
          rfl
      | some sink => rfl

theorem works_execute (pipeline : Pipeline) (stage : String) (code arguments : Value) :
    Works (pipeline.execute stage code arguments) := by
  refine ⟨fun work =>
    let ending := pipeline.ending code arguments work
    (ending.outcome.mapError (.machine stage),
      ⟨ending.store, ending.machine.trace, ending.supervisor⟩,
      addedTrace work.trace ending.machine.trace), ?_⟩
  intro state
  exact perform_execute pipeline stage code arguments state

theorem works_compileProgram (pipeline : Pipeline) (program : Value) :
    Works (pipeline.compileProgram program) := by
  unfold compileProgram
  split
  · exact works_pure program
  · split
    · exact works_throw _
    next compiler _ =>
      apply Works.of_store (fun store => (store.list [program]).2)
        (fun store => works_execute pipeline "compile" compiler (store.list [program]).1)
      intro state
      simp only [perform_bind, perform_get, perform_set]

theorem works_assembleCode (pipeline : Pipeline) (code : Value) :
    Works (pipeline.assembleCode code) := by
  unfold assembleCode
  split
  · exact works_pure code
  · let assembled : Store → Stage Value := fun store =>
      match Assembler.assemble store code with
      | .ok (code, _) => pure code
      | .error error => throw (.assembly error)
    have works : ∀ store, Works (assembled store) := by
      intro store
      simp only [assembled]
      split
      · exact works_pure _
      · exact works_throw _
    apply Works.of_store
      (fun store => ((Assembler.assemble store code).toOption.map Prod.snd).getD store) works
    intro state
    simp only [assembled, perform_bind, perform_get]
    cases Assembler.assemble state.store code <;> rfl

def produce (pipeline : Pipeline) (program : Value) : Stage Value := do
  let code ← pipeline.compileProgram program
  pipeline.assembleCode code

def announce (pipeline : Pipeline) (code : Value) : Stage Unit := do
  if !pipeline.skipCompile || pipeline.assemble then print code
  list code

def conclude (pipeline : Pipeline) (code arguments : Value) : Stage Value := do
  print arguments
  let result ← pipeline.execute "run" code arguments
  print result
  return result

theorem works_produce (pipeline : Pipeline) (program : Value) : Works (pipeline.produce program) :=
  (works_compileProgram pipeline program).bind (works_assembleCode pipeline)

theorem compile_eq (pipeline : Pipeline) (program : Value) :
    pipeline.compile program = do
      let code ← pipeline.produce program
      pipeline.announce code
      return code := by
  by_cases shows : (!pipeline.skipCompile || pipeline.assemble) = true
  · simp only [compile, produce, announce, shows, if_true, bind_assoc]
  · simp only [compile, produce, announce, shows, if_false, bind_assoc, Bool.false_eq_true]

variable {related : State → State → Prop} {part : State → γ}

def Matching (related : State → State → Prop) (left right : Except PipelineError α × State) :
    Prop :=
  left.1 = right.1 ∧ related left.2 right.2

theorem Matching.bind {stage : Stage α} {next : α → Stage β} {left right : State}
    (first : Matching related (perform stage left) (perform stage right))
    (rest : ∀ value, Matching related (perform (next value) (perform stage left).2)
      (perform (next value) (perform stage right).2)) :
    Matching related (perform (stage >>= next) left) (perform (stage >>= next) right) := by
  rw [perform_bind, perform_bind]
  generalize perform stage left = here at first rest ⊢
  generalize perform stage right = there at first rest ⊢
  obtain ⟨outcome, after⟩ := here
  obtain ⟨sameOutcome, other⟩ := there
  obtain ⟨same, still⟩ := first
  simp only at same
  subst same
  cases outcome with
  | error error => exact ⟨rfl, still⟩
  | ok value => exact rest value

structure Confined (related : State → State → Prop) (part : State → γ) (stage : Stage α) :
    Prop where
  same : ∀ {left right}, related left right →
    Matching related (perform stage left) (perform stage right)
  kept : ∀ state, part (perform stage state).2 = part state

theorem confined_pure (value : α) : Confined related part (pure value : Stage α) :=
  ⟨fun start => ⟨rfl, start⟩, fun _ => rfl⟩

theorem Confined.bind {stage : Stage α} {next : α → Stage β} (first : Confined related part stage)
    (rest : ∀ value, Confined related part (next value)) :
    Confined related part (stage >>= next) := by
  constructor
  · intro left right start
    obtain ⟨outcome, still⟩ := first.same start
    exact Matching.bind ⟨outcome, still⟩ fun value => (rest value).same still
  · intro state
    have before := first.kept state
    rw [perform_bind]
    generalize perform stage state = performed at before ⊢
    obtain ⟨result, after⟩ := performed
    cases result with
    | error error => exact before
    | ok value => exact ((rest value).kept after).trans before

end Pipeline

end SecdMachine
