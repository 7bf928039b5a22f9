import SecdMachine.Proofs.Interruption
import SecdMachine.Proofs.Phases

/-!
A trace only observes. A machine that is traced goes the way it goes untraced, and each call of
`step` adds to the trace the instruction it finds and the registers before it. So the output of a
pipeline does not show whether there is a trace or a listing.
-/

namespace SecdMachine

namespace Sink

theorem append_nil (sink : Sink) : sink.append [] = sink := by
  simp [append]

theorem append_append (sink : Sink) (texts more : List String) :
    (sink.append texts).append more = sink.append (texts ++ more) := by
  simp [append]

theorem text_append (sink : Sink) (texts : List String) :
    (sink.append texts).text = sink.text ++ String.join texts := by
  simp [text, append]

end Sink

theorem join_flatMap {α : Type} (entries : List α) (texts : α → List String) :
    String.join (entries.flatMap texts) =
      String.join (entries.map fun entry => String.join (texts entry)) := by
  induction entries with
  | nil => rfl
  | cons entry rest ih => simp [ih]

def Registers.text (registers : Registers) (store : Store) : String :=
  (registers.print store {}).2.text

theorem Registers.text_eq (registers : Registers) (store : Store) :
    registers.text store = String.join (linesOf store registers.labelled) := by
  have empty : Sink.text {} = "" := rfl
  rw [text, print, printTo, printLabelled_unlimited rfl, Sink.text_append, empty, String.empty_append]

namespace Configuration

def untraced (configuration : Configuration) : Configuration :=
  ⟨configuration.machine.withTrace none, configuration.store⟩

/-- What a call of `step` adds to a trace. It does so if it finds an instruction, whether or not it
can execute it. -/
def traceEntry (configuration : Configuration) : String :=
  if configuration.machine.halted then ""
  else
    match Instruction.decode configuration.store configuration.registers.control with
    | .error _ => ""
    | .ok (opcode, _) =>
        "op: " ++ toString opcode.number ++ " " ++ opcode.name ++ "\n" ++
          configuration.registers.text configuration.store

def traceLines (configuration : Configuration) : List String :=
  if configuration.machine.halted then []
  else
    match Instruction.decode configuration.store configuration.registers.control with
    | .error _ => []
    | .ok (opcode, _) => Machine.traceLines configuration.store configuration.registers opcode

theorem join_traceLines (configuration : Configuration) :
    String.join configuration.traceLines = configuration.traceEntry := by
  simp only [traceLines, traceEntry]
  split
  · rfl
  · split
    · rfl
    · rw [Machine.traceLines, Registers.text_eq, ← String.toList_inj]
      simp [String.toList_join, Machine.traceHeading]

section

variable {configuration : Configuration}

theorem trace_next (freely : configuration.machine.TracesFreely) :
    configuration.next.machine.trace =
      configuration.machine.trace.map fun sink => sink.append configuration.traceLines := by
  obtain ⟨machine, store⟩ := configuration
  cases stopped : machine.halted with
  | true => simp [next, Machine.step, traceLines, stopped, Sink.append_nil]
  | false =>
      cases decoded : Instruction.decode store machine.registers.control with
      | error cause =>
          simp [next, step_of_undecoded stopped decoded, traceLines, registers, stopped, decoded,
            Sink.append_nil]
      | ok found =>
          obtain ⟨opcode, rest⟩ := found
          have stepped := step_of_traced stopped decoded (freely.traced store opcode)
          simp only [next, stepped, traceLines, registers, stopped, decoded]
          cases machine.effectOf store opcode rest <;> rfl

theorem untraced_freely (configuration : Configuration) :
    configuration.untraced.machine.TracesFreely := by
  rintro sink ⟨⟩

theorem error?_untraced (freely : configuration.machine.TracesFreely) :
    configuration.untraced.error? = configuration.error? :=
  (bare_step configuration.untraced_freely).1.symm.trans (bare_step freely).1

theorem eq_of_bare {other : Configuration} (bare : configuration.bare = other.bare)
    (trace : configuration.machine.trace = other.machine.trace)
    (limit : configuration.machine.limit = other.machine.limit) : configuration = other := by
  obtain ⟨⟨_, _, _, _, _⟩, _⟩ := configuration
  obtain ⟨⟨_, _, _, _, _⟩, _⟩ := other
  simp_all [Configuration.bare]

theorem next_untraced (freely : configuration.machine.TracesFreely) :
    configuration.untraced.next = configuration.next.untraced := by
  apply eq_of_bare
  · exact (bare_step configuration.untraced_freely).2.1.symm.trans (bare_step freely).2.1
  · exact trace_next configuration.untraced_freely
  · exact (limit_next configuration.untraced).trans (limit_next configuration).symm

theorem after_untraced (freely : configuration.machine.TracesFreely) (calls : Nat) :
    configuration.untraced.after calls = (configuration.after calls).untraced := by
  induction calls with
  | zero => rfl
  | succ calls ih =>
      rw [after, ih]
      exact next_untraced (bare_after freely calls).2

theorem trace_after (freely : configuration.machine.TracesFreely) (calls : Nat) :
    (configuration.after calls).machine.trace = configuration.machine.trace.map fun sink =>
      sink.append ((List.range calls).flatMap fun call =>
        (configuration.after call).traceLines) := by
  induction calls with
  | zero => simp [after, Sink.append_nil]
  | succ calls ih =>
      rw [after, trace_next (bare_after freely calls).2, ih, Option.map_map]
      simp [Function.comp_def, Sink.append_append, List.range_succ]

end

end Configuration

def Machine.Ending.untraced (ending : Machine.Ending) : Machine.Ending :=
  { ending with machine := ending.machine.withTrace none }

theorem Machine.Ending.outcome_untraced (ending : Machine.Ending) :
    ending.untraced.outcome = ending.outcome :=
  rfl

namespace Configuration

variable {configuration : Configuration}

theorem Concludes.untraced {fuel : Nat} {supervisor : Supervisor} {last : Configuration}
    {ending : Machine.Ending} (freely : last.machine.TracesFreely)
    (concludes : Concludes fuel supervisor last ending) :
    last.untraced.run fuel supervisor = ending.untraced := by
  cases concludes with
  | halted stopped =>
      have same : last.untraced.machine.halted = true := stopped
      exact run_of_halted same
  | hindered running hindered =>
      have same : last.untraced.machine.halted = false := running
      exact run_of_hindered same hindered
  | failed running free left failed =>
      have same : last.untraced.machine.halted = false := running
      obtain ⟨less, rfl⟩ := Nat.exists_eq_add_of_le' (show 1 ≤ fuel by omega)
      rw [run_of_failed same free ((error?_untraced freely).trans failed), next_untraced freely]
      rfl
  | exhausted running free spent =>
      have same : last.untraced.machine.halted = false := running
      subst spent
      exact run_of_exhausted same free

theorem run_untraced (freely : configuration.machine.TracesFreely) (fuel : Nat)
    (supervisor : Supervisor) :
    configuration.untraced.run fuel supervisor =
      (configuration.run fuel supervisor).untraced := by
  induction fuel generalizing configuration supervisor with
  | zero =>
      rcases configuration.concludes_or_passes 0 supervisor with concludes | ⟨_, same, _⟩
      · exact concludes.untraced freely
      · omega
  | succ fuel ih =>
      rcases configuration.concludes_or_passes (fuel + 1) supervisor with concludes | ⟨_, _, first⟩
      · exact concludes.untraced freely
      · have free : (configuration.machine.hindrance supervisor).1 = none := first.free
        have succeeds : configuration.error? = none := first.succeeds
        have onward : configuration.untraced.run (fuel + 1) supervisor =
            configuration.untraced.next.run fuel (configuration.machine.hindrance supervisor).2 :=
          run_of_passes free ((error?_untraced freely).trans succeeds)
        rw [onward, run_of_passes free succeeds, next_untraced freely]
        exact ih (bare_step freely).2.2 _

end Configuration

namespace Pipeline

def Unlimited (sink? : Option Sink) : Prop :=
  ∀ sink, sink? = some sink → sink.capacity = none

theorem unlimited_none : Unlimited none := by
  rintro sink ⟨⟩

structure Observed (left right : State) : Prop where
  input : left.input = right.input
  store : left.store = right.store
  supervisor : left.supervisor = right.supervisor
  out : left.out = right.out
  traces : Unlimited left.trace ∧ Unlimited right.trace
  listings : Unlimited left.listing ∧ Unlimited right.listing

abbrev Oblivious {α : Type} (stage : Stage α) : Prop :=
  Confined Observed (fun _ => ()) stage

theorem ending_untraced (pipeline : Pipeline) (code arguments : Value) {work : Work}
    (unlimited : Unlimited work.trace) :
    (pipeline.ending code arguments work).untraced =
      pipeline.ending code arguments { work with trace := none } :=
  (@Configuration.run_untraced
    ⟨{ (Machine.load work.store code arguments).1 with
        trace := work.trace, limit := pipeline.limit },
      (Machine.load work.store code arguments).2⟩ unlimited pipeline.fuel work.supervisor).symm

theorem unlimited_ending (pipeline : Pipeline) (code arguments : Value) {work : Work}
    (unlimited : Unlimited work.trace) :
    Unlimited (pipeline.ending code arguments work).machine.trace :=
  (Configuration.leads_run
    ⟨{ (Machine.load work.store code arguments).1 with
        trace := work.trace, limit := pipeline.limit },
      (Machine.load work.store code arguments).2⟩ unlimited pipeline.fuel work.supervisor).2

theorem oblivious_execute (pipeline : Pipeline) (stage : String) (code arguments : Value) :
    Oblivious (pipeline.execute stage code arguments) := by
  refine ⟨?_, fun _ => rfl⟩
  intro left right observed
  have bare : ({ left.work with trace := none } : Work) = { right.work with trace := none } := by
    simp only [State.work, observed.store, observed.supervisor]
  have same : (pipeline.ending code arguments left.work).untraced =
      (pipeline.ending code arguments right.work).untraced := by
    rw [ending_untraced pipeline code arguments observed.traces.1,
      ending_untraced pipeline code arguments observed.traces.2, bare]
  simp only [Machine.Ending.untraced, Machine.Ending.mk.injEq] at same
  obtain ⟨outcome, supervisor, _, store⟩ := same
  rw [perform_execute, perform_execute]
  refine ⟨congrArg (Except.mapError _) outcome, observed.input, store, supervisor, observed.out,
    ⟨?_, ?_⟩, observed.listings⟩
  · exact unlimited_ending pipeline code arguments observed.traces.1
  · exact unlimited_ending pipeline code arguments observed.traces.2

theorem oblivious_print (value : Value) : Oblivious (print value) := by
  refine ⟨?_, fun _ => rfl⟩
  intro left right observed
  rw [perform_print, perform_print, observed.out, observed.store]
  exact ⟨rfl, { observed with out := by simp only [State.printed, observed.out, observed.store] }⟩

theorem oblivious_list (code : Value) : Oblivious (list code) := by
  refine ⟨?_, fun _ => rfl⟩
  have lists : ∀ state : State, Unlimited state.listing → ∃ listing transcript, Unlimited listing ∧
      perform (list code) state =
        (.ok (), { state with listing := listing, transcript := transcript }) := by
    intro state unlimited
    rw [perform_list]
    obtain ⟨store, reader, source, arguments, out, listing, trace, supervisor, transcript⟩ := state
    cases listing with
    | none => exact ⟨none, transcript, unlimited, rfl⟩
    | some sink =>
        have free : sink.capacity = none := unlimited sink rfl
        simp only [Option.map_some, Sink.write_unlimited free]
        refine ⟨_, _, ?_, rfl⟩
        rintro _ ⟨⟩
        exact free
  intro left right observed
  obtain ⟨_, _, unlimited, here⟩ := lists left observed.listings.1
  obtain ⟨_, _, also, there⟩ := lists right observed.listings.2
  rw [here, there]
  exact ⟨rfl, { observed with listings := ⟨unlimited, also⟩ }⟩

theorem Observed.fed {left right : State} (observed : Observed left right) (what : String)
    (input : Reader × LineSource × ArgumentInput) (outcome : Except ReadError Datum)
    (prompts others : List String) :
    Observed (left.fed what input outcome prompts) (right.fed what input outcome others) := by
  refine { observed with input := rfl, store := ?_ }
  simp only [State.fed, observed.store]

theorem oblivious_readProgram : Oblivious readProgram := by
  refine ⟨?_, fun _ => rfl⟩
  intro left right observed
  obtain ⟨prompts, here⟩ := perform_readProgram left
  obtain ⟨others, there⟩ := perform_readProgram right
  have same := observed.input
  simp only [State.input, Prod.mk.injEq] at same
  obtain ⟨reader, source, arguments⟩ := same
  rw [here, there, reader, source, arguments, observed.store]
  exact ⟨rfl, observed.fed _ _ _ _ _⟩

theorem oblivious_readArguments : Oblivious readArguments := by
  refine ⟨?_, fun _ => rfl⟩
  intro left right observed
  obtain ⟨prompts, here⟩ := perform_readArguments left
  obtain ⟨others, there⟩ := perform_readArguments right
  rw [here, there, argumentReading_of_input observed.input,
    argumentsTaken_of_input observed.input, observed.store]
  exact ⟨rfl, observed.fed _ _ _ _ _⟩

theorem oblivious_compileProgram (pipeline : Pipeline) (program : Value) :
    Oblivious (pipeline.compileProgram program) := by
  unfold compileProgram
  split
  · exact confined_pure program
  · split
    · exact ⟨fun observed => ⟨rfl, observed⟩, fun _ => rfl⟩
    next compiler _ =>
      refine ⟨?_, fun _ => rfl⟩
      intro left right observed
      simp only [perform_bind, perform_get, perform_set]
      rw [observed.store]
      exact (oblivious_execute pipeline "compile" compiler _).same { observed with store := rfl }

theorem oblivious_assembleCode (pipeline : Pipeline) (code : Value) :
    Oblivious (pipeline.assembleCode code) := by
  unfold assembleCode
  split
  · exact confined_pure code
  · refine ⟨?_, fun _ => rfl⟩
    intro left right observed
    simp only [perform_bind, perform_get]
    rw [observed.store]
    cases Assembler.assemble right.store code with
    | error error => exact ⟨rfl, observed⟩
    | ok assembled => exact ⟨rfl, { observed with store := rfl }⟩

theorem oblivious_compile (pipeline : Pipeline) (program : Value) :
    Oblivious (pipeline.compile program) := by
  rw [compile_eq]
  refine ((oblivious_compileProgram pipeline program).bind (oblivious_assembleCode pipeline)).bind ?_
  intro code
  refine Confined.bind ?_ fun _ => confined_pure code
  unfold announce
  split
  · exact (oblivious_print code).bind fun _ => oblivious_list code
  · exact oblivious_list code

theorem oblivious_stages (pipeline : Pipeline) : Oblivious pipeline.stages := by
  refine oblivious_readProgram.bind fun program => ?_
  refine (oblivious_print program).bind fun _ => ?_
  refine (oblivious_compile pipeline program).bind fun code => ?_
  refine oblivious_readArguments.bind fun arguments => ?_
  refine (oblivious_print arguments).bind fun _ => ?_
  refine (oblivious_execute pipeline "run" code arguments).bind fun result => ?_
  exact (oblivious_print result).bind fun _ => confined_pure result

end Pipeline

/-- A trace that refuses nothing changes neither the states of a machine nor what its calls of `step`
and its runs report, and it grows by one entry for each call that finds an instruction. A pipeline
with a trace and a listing that refuse nothing gives the result, the error and the output that it
gives without them. -/
theorem tracing_only_observes :
    (∀ (start : Configuration) (sink : Sink), start.machine.trace = some sink →
      sink.capacity = none →
      (∀ calls,
        let traced := start.after calls
        let bare := start.untraced.after calls
        bare = traced.untraced ∧ bare.error? = traced.error? ∧
          bare.machine.result bare.store = traced.machine.result traced.store ∧
          ∃ trace, traced.machine.trace = some trace ∧ trace.text = sink.text ++
            String.join ((List.range calls).map fun call => (start.after call).traceEntry)) ∧
      ∀ fuel supervisor,
        start.untraced.run fuel supervisor = (start.run fuel supervisor).untraced) ∧
    ∀ (pipeline : Pipeline) (state : Pipeline.State) (trace listing : Option Sink),
      Pipeline.Unlimited trace → Pipeline.Unlimited listing →
      let observed := pipeline.run { state with trace := trace, listing := listing }
      let unobserved := pipeline.run { state with trace := none, listing := none }
      observed.1 = unobserved.1 ∧ observed.2.store = unobserved.2.store ∧
        observed.2.out = unobserved.2.out := by
  constructor
  · intro start sink present unlimited
    have freely : start.machine.TracesFreely := by
      intro other found
      rw [present] at found
      cases found
      exact unlimited
    refine ⟨fun calls => ?_, fun fuel supervisor => start.run_untraced freely fuel supervisor⟩
    have still := (Configuration.bare_after freely calls).2
    have grown := Configuration.trace_after freely calls
    rw [present, Option.map_some] at grown
    intro traced bare
    have same : bare = traced.untraced := Configuration.after_untraced freely calls
    refine ⟨same, ?_, ?_, _, grown, ?_⟩
    · rw [same]
      exact Configuration.error?_untraced still
    · rw [same]
      rfl
    · rw [Sink.text_append, join_flatMap]
      simp only [Configuration.join_traceLines]
  · intro pipeline state trace listing traceUnlimited listingUnlimited observed unobserved
    have start : Pipeline.Observed { state with trace := trace, listing := listing }
        { state with trace := none, listing := none } :=
      ⟨rfl, rfl, rfl, rfl, ⟨traceUnlimited, Pipeline.unlimited_none⟩,
        ⟨listingUnlimited, Pipeline.unlimited_none⟩⟩
    obtain ⟨outcome, related⟩ := (Pipeline.oblivious_stages pipeline).same start
    exact ⟨outcome, related.store, related.out⟩

def knotThenFault : Datum :=
  .ofList [.integer 6, .integer 2, .nil, .integer 3, .ofList [.integer 5], .integer 13, .integer 3,
    .ofList [.integer 4], .integer 7, .integer 21]

theorem knotThenFault_traced :
    let start := Configuration.start (Store.load {} knotThenFault).2 (Store.load {} knotThenFault).1
      .nil (some {})
    let pipeline : Pipeline := { skipCompile := true, assemble := true, fuel := 10 }
    let state : Pipeline.State := {
      store := {}
      reader := {}
      source := .ofText "(LDC 7 STOP) NIL".toList
      arguments := .sameReader
      out := {}
      listing := none
      trace := none
      supervisor := {} }
    (start.after 6).traceEntry =
      "op: 4 AP\ns:\n \ne:\n( ( ( ( 5 ) . ... ) ) ) \nc:\n( 4 ) \nd:\n( ( (  )  ( 21 ) ) ) \n" ∧
    (start.untraced.after 6).error?.isSome ∧ (start.after 6).error?.isSome ∧
    (∃ trace, (start.after 7).machine.trace = some trace ∧
      trace.text = String.join ((List.range 7).map fun call => (start.after call).traceEntry)) ∧
    (start.run 10 {}).outcome.toOption = none ∧
    (pipeline.run { state with trace := some {}, listing := some {} }).1 = .ok (.integer 7) := by
  intro start pipeline state
  have failed : (start.untraced.after 6).error?.isSome := by decide +kernel
  have unfinished : (start.untraced.run 10 {}).outcome.toOption = none := by decide +kernel
  have result : (pipeline.run { state with trace := none, listing := none }).1.toOption =
      some (.integer 7) := by decide +kernel
  have free : Pipeline.Unlimited (some {}) := by
    rintro _ ⟨⟩
    rfl
  obtain ⟨machine, outputs⟩ := tracing_only_observes
  obtain ⟨calls, runs⟩ := machine start {} rfl rfl
  obtain ⟨_, _, _, trace, present, text⟩ := calls 7
  refine ⟨by decide +kernel, failed, ?_, ⟨trace, present, ?_⟩, ?_, ?_⟩
  · rw [← (calls 6).2.1]
    exact failed
  · have empty : Sink.text {} = "" := rfl
    rw [text, empty, String.empty_append]
  · rw [runs, Machine.Ending.outcome_untraced] at unfinished
    exact unfinished
  · rw [(outputs pipeline state (some {}) (some {}) free free).1]
    generalize (pipeline.run { state with trace := none, listing := none }).1 = outcome at result ⊢
    cases outcome with
    | error error => cases result
    | ok value =>
        cases result
        rfl

end SecdMachine
