import SecdMachine.Proofs.CallReturn
import SecdMachine.Proofs.Runs
import SecdMachine.Proofs.Wrapping

/-!
Where a run is interrupted does not show. A trace that is never refused decides nothing, so a machine
behaves as its `bare` form without trace and limit, and any sequence of single steps, limited runs and
cancelled runs has brought it to where its instructions alone would have brought it.
-/

namespace SecdMachine

def Sink.append (sink : Sink) (texts : List String) : Sink :=
  { sink with written := sink.written ++ texts.toArray }

def Registers.linesOf (store : Store) (values : List (String × Value)) : List String :=
  values.flatMap fun labelled => labelled.1.push '\n' :: ({} : Writer).linesOf store labelled.2

theorem Registers.printLabelled_unlimited {sink : Sink} (unlimited : sink.capacity = none)
    (store : Store) (values : List (String × Value)) :
    printLabelled store sink values = (none, sink.append (linesOf store values)) := by
  induction values generalizing sink with
  | nil => simp [printLabelled, linesOf, Sink.append]
  | cons labelled rest ih =>
      obtain ⟨label, value⟩ := labelled
      obtain ⟨written, capacity, refusals⟩ := sink
      simp only at unlimited
      subst unlimited
      have lines : ∀ sink : Sink, Writer.linesOf { sink := sink } store value =
        Writer.linesOf {} store value := fun _ => rfl
      have putting := @Writer.putLine_eq_linesOf
        { sink := ⟨written.push (label.push '\n'), none, refusals⟩ } rfl rfl store value
      rw [printLabelled, Sink.write_unlimited rfl]
      simp only [putting]
      rw [ih rfl]
      simp [linesOf, lines, Sink.append]

def Machine.traceLines (store : Store) (registers : Registers) (opcode : Opcode) : List String :=
  traceHeading opcode :: Registers.linesOf store registers.labelled

theorem Machine.traceTo_unlimited {sink : Sink} (unlimited : sink.capacity = none)
    (registers : Registers) (store : Store) (opcode : Opcode) :
    traceTo registers store opcode sink =
      (none, sink.append (traceLines store registers opcode)) := by
  obtain ⟨written, capacity, refusals⟩ := sink
  simp only at unlimited
  subst unlimited
  rw [traceTo, Sink.write_unlimited rfl]
  simp only [Registers.printTo]
  rw [Registers.printLabelled_unlimited rfl]
  simp [traceLines, Sink.append]

def Machine.TracesFreely (machine : Machine) : Prop :=
  ∀ sink, machine.trace = some sink → sink.capacity = none

theorem Machine.TracesFreely.traced {machine : Machine} (freely : machine.TracesFreely)
    (store : Store) (opcode : Opcode) :
    machine.traced store opcode = (none, machine.withTrace (machine.trace.map fun sink =>
      sink.append (traceLines store machine.registers opcode))) := by
  obtain ⟨registers, halted, steps, trace, limit⟩ := machine
  cases trace with
  | none => rfl
  | some sink =>
      rw [Machine.traced, traceTo_unlimited (freely sink rfl)]
      rfl

theorem Machine.TracesFreely.append {machine : Machine} (freely : machine.TracesFreely)
    (texts : List String) :
    (machine.withTrace (machine.trace.map fun sink => sink.append texts)).TracesFreely := by
  intro sink added
  obtain ⟨before, found, rfl⟩ := Option.map_eq_some_iff.mp added
  exact freely before found

namespace Configuration

def bare (configuration : Configuration) : Configuration :=
  ⟨{ configuration.machine with trace := none, limit := 0 }, configuration.store⟩

def withLimit (configuration : Configuration) (limit : Int) : Configuration :=
  ⟨{ configuration.machine with limit := limit }, configuration.store⟩

theorem bare_step {configuration : Configuration} (freely : configuration.machine.TracesFreely) :
    configuration.bare.error? = configuration.error? ∧
      configuration.bare.next = configuration.next.bare ∧
      configuration.next.machine.TracesFreely := by
  obtain ⟨machine, store⟩ := configuration
  cases stopped : machine.halted with
  | true => simp [error?, next, bare, Machine.step, stopped, freely]
  | false =>
      cases decoded : Instruction.decode store machine.registers.control with
      | error cause =>
          simp [error?, next, bare, Machine.step, stopped, decoded, freely, Machine.faultOf]
      | ok found =>
          obtain ⟨opcode, rest⟩ := found
          have still := freely.append (Machine.traceLines store machine.registers opcode)
          have stepped := step_of_traced stopped decoded (freely.traced store opcode)
          have bareStepped := @step_of_traced { machine with trace := none, limit := 0 } store opcode
            rest none stopped decoded rfl
          have same : Machine.effectOf { machine with trace := none, limit := 0 } store opcode rest =
            machine.effectOf store opcode rest := rfl
          rw [same] at bareStepped
          cases worked : machine.effectOf store opcode rest with
          | error cause =>
              rw [worked] at stepped bareStepped
              simp only [error?, next, bare, stepped, bareStepped]
              exact ⟨rfl, rfl, still⟩
          | ok effect =>
              rw [worked] at stepped bareStepped
              simp only [error?, next, bare, stepped, bareStepped]
              exact ⟨trivial, rfl, still⟩

theorem bare_after {configuration : Configuration} (freely : configuration.machine.TracesFreely)
    (calls : Nat) :
    configuration.bare.after calls = (configuration.after calls).bare ∧
      (configuration.after calls).machine.TracesFreely := by
  induction calls with
  | zero => exact ⟨rfl, freely⟩
  | succ calls ih =>
      obtain ⟨_, moved, still⟩ := bare_step ih.2
      rw [after, ih.1, moved]
      exact ⟨rfl, still⟩

theorem error?_bare_after {configuration : Configuration}
    (freely : configuration.machine.TracesFreely) (calls : Nat) :
    (configuration.bare.after calls).error? = (configuration.after calls).error? := by
  obtain ⟨same, still⟩ := bare_after freely calls
  rw [same]
  exact (bare_step still).1

theorem bare_next_of_error {configuration : Configuration} {error : MachineError}
    (freely : configuration.machine.TracesFreely) (failed : configuration.error? = some error) :
    configuration.next.bare = configuration.bare := by
  obtain ⟨same, moved, _⟩ := bare_step freely
  rw [failed] at same
  rw [← moved]
  exact next_eq_self rfl same

inductive Request where
  | step
  | run (limit : Int) (supervisor : Supervisor) (fuel : Nat)

def obey (configuration : Configuration) : Request → Configuration
  | .step => configuration.next
  | .run limit supervisor fuel =>
      match (configuration.withLimit limit).run fuel supervisor with
      | ⟨_, _, machine, store⟩ => ⟨machine, store⟩

def obeyAll (configuration : Configuration) (requests : List Request) : Configuration :=
  requests.foldl obey configuration

def Leads (before later : Configuration) : Prop :=
  ∃ calls, (∀ call < calls, (before.after call).error? = none) ∧ later = before.after calls

theorem Leads.trans {first second third : Configuration} (earlier : Leads first second)
    (later : Leads second third) : Leads first third := by
  obtain ⟨calls, passed, rfl⟩ := earlier
  obtain ⟨more, passedMore, rfl⟩ := later
  refine ⟨calls + more, ?_, (first.after_add calls more).symm⟩
  intro call bound
  by_cases early : call < calls
  · exact passed call early
  · obtain ⟨beyond, rfl⟩ := Nat.exists_eq_add_of_le (Nat.le_of_not_lt early)
    rw [after_add]
    exact passedMore beyond (by omega)

theorem Leads.of_passed {configuration : Configuration} {calls : Nat}
    (freely : configuration.machine.TracesFreely)
    (passed : ∀ call < calls, (configuration.after call).error? = none) :
    Leads configuration.bare (configuration.after calls).bare := by
  refine ⟨calls, ?_, (bare_after freely calls).1.symm⟩
  intro call early
  rw [error?_bare_after freely]
  exact passed call early

theorem leads_next {configuration : Configuration} (freely : configuration.machine.TracesFreely) :
    Leads configuration.bare configuration.next.bare := by
  cases reported : configuration.error? with
  | none =>
      have once : ∀ call < 1, (configuration.after call).error? = none := by
        intro call first
        obtain rfl : call = 0 := by omega
        exact reported
      exact Leads.of_passed freely once
  | some error =>
      rw [bare_next_of_error freely reported]
      exact ⟨0, by simp, rfl⟩

theorem leads_run (configuration : Configuration) (freely : configuration.machine.TracesFreely)
    (fuel : Nat) (supervisor : Supervisor) :
    Leads configuration.bare
        (Configuration.mk (configuration.run fuel supervisor).machine
          (configuration.run fuel supervisor).store).bare ∧
      (configuration.run fuel supervisor).machine.TracesFreely := by
  obtain ⟨calls, _, passed, concludes⟩ := configuration.run_concludes fuel supervisor
  have through := Leads.of_passed freely fun call early => (passed call early).succeeds
  have still := (bare_after freely calls).2
  generalize configuration.run fuel supervisor = ending at concludes ⊢
  cases concludes with
  | halted | hindered | exhausted => exact ⟨through, still⟩
  | failed => exact ⟨through.trans (leads_next still), (bare_step still).2.2⟩

theorem leads_obey {configuration : Configuration} (freely : configuration.machine.TracesFreely)
    (request : Request) :
    Leads configuration.bare (configuration.obey request).bare ∧
      (configuration.obey request).machine.TracesFreely := by
  cases request with
  | step => exact ⟨leads_next freely, (bare_step freely).2.2⟩
  | run limit supervisor fuel =>
      exact leads_run (configuration.withLimit limit) freely fuel supervisor

theorem leads_obeyAll {configuration : Configuration}
    (freely : configuration.machine.TracesFreely) (requests : List Request) :
    Leads configuration.bare (configuration.obeyAll requests).bare ∧
      (configuration.obeyAll requests).machine.TracesFreely := by
  induction requests generalizing configuration with
  | nil => exact ⟨⟨0, by simp, rfl⟩, freely⟩
  | cons request requests ih =>
      obtain ⟨first, still⟩ := leads_obey freely request
      obtain ⟨rest, last⟩ := ih still
      exact ⟨first.trans rest, last⟩

theorem steps_after {configuration : Configuration} {calls : Nat}
    (passed : ∀ call < calls, (configuration.after call).error? = none) :
    (configuration.after calls).machine.steps = configuration.machine.steps + calls := by
  induction calls with
  | zero => rfl
  | succ calls ih =>
      have before := ih fun call early => passed call (by omega)
      have succeeds := passed calls (Nat.lt_succ_self calls)
      rcases (configuration.after calls).step_cases with ⟨_, _, failed, _⟩ | ⟨_, _, _, _, executes⟩
      · rw [succeeds] at failed
        cases failed
      · rw [after, executes.steps, before]
        omega

theorem limit_next (configuration : Configuration) :
    configuration.next.machine.limit = configuration.machine.limit := by
  obtain ⟨machine, store⟩ := configuration
  simp only [next, Machine.step]
  split
  · rfl
  · cases Instruction.decode store machine.registers.control with
    | error cause => rfl
    | ok found =>
        obtain ⟨opcode, rest⟩ := found
        obtain ⟨failure, trace, traced, _⟩ := traced_eq machine store opcode
        simp only [traced]
        cases failure with
        | some problem => rfl
        | none =>
            simp only
            cases (machine.withTrace trace).effectOf store opcode rest <;> rfl

theorem limit_after (configuration : Configuration) (calls : Nat) :
    (configuration.after calls).machine.limit = configuration.machine.limit := by
  induction calls with
  | zero => rfl
  | succ calls ih => rw [after, limit_next, ih]

end Configuration

namespace Machine

variable {machine : Machine} {supervisor : Supervisor}

theorem hindrance_of_limit (limited : 0 < machine.limit)
    (spent : machine.limit ≤ machine.steps) :
    machine.hindrance supervisor = (some (.stepLimit machine.steps), supervisor) := by
  simp [hindrance, limited, spent]

theorem hindrance_of_free (within : machine.limit ≤ 0 ∨ machine.steps < machine.limit) :
    machine.hindrance supervisor =
      if machine.steps % askInterval = 0 then
        (supervisor.ask.1.map (MachineError.cancelled machine.steps), supervisor.ask.2)
      else (none, supervisor) := by
  have unlimited : ¬(machine.limit > 0 ∧ (machine.steps : Int) ≥ machine.limit) := by omega
  simp only [hindrance, Bool.and_eq_true, decide_eq_true_eq, unlimited, if_false]
  split
  · rcases supervisor.ask with ⟨_ | reason, later⟩ <;> rfl
  · rfl

theorem within_of_free (free : (machine.hindrance supervisor).1 = none) :
    machine.limit ≤ 0 ∨ machine.steps < machine.limit := by
  by_contra reached
  rw [hindrance_of_limit (by omega) (by omega)] at free
  cases free

end Machine

namespace Configuration

def Uneventful (configuration : Configuration) (calls : Nat) : Prop :=
  ∀ call < calls, (configuration.after call).error? = none ∧
    (configuration.after (call + 1)).machine.halted = false

section

variable {configuration : Configuration} {supervisor : Supervisor} {fuel calls : Nat}

theorem running_after (fresh : configuration.machine.halted = false)
    (uneventful : configuration.Uneventful calls) :
    (configuration.after calls).machine.halted = false := by
  cases calls with
  | zero => exact fresh
  | succ calls => exact (uneventful calls (Nat.lt_succ_self calls)).2

theorem uneventful_of_passed (passed : ∀ call < calls, configuration.Passes supervisor call)
    (running : (configuration.after calls).machine.halted = false) :
    configuration.Uneventful calls := by
  intro call early
  refine ⟨(passed call early).succeeds, ?_⟩
  by_cases last : call + 1 = calls
  · rw [last]
    exact running
  · exact running_of_succeeds (passed (call + 1) (by omega)).succeeds

theorem asked_of_patient (patient : supervisor.patience = none) (calls : Nat) :
    configuration.asked supervisor calls = supervisor := by
  induction calls with
  | zero => rfl
  | succ calls ih =>
      obtain ⟨patience, reason⟩ := supervisor
      simp only at patient
      subst patient
      rw [asked, ih, Machine.hindrance]
      split
      · rfl
      · split <;> rfl

theorem hindrance_of_unlimited (unlimited : configuration.machine.limit = 0) :
    configuration.machine.hindrance {} = (none, {}) := by
  rw [Machine.hindrance_of_free (Or.inl (Int.le_of_eq unlimited))]
  simp [Supervisor.ask]

theorem passes_of_unlimited (unlimited : configuration.machine.limit = 0) {call : Nat}
    (succeeds : (configuration.after call).error? = none) : configuration.Passes {} call := by
  refine ⟨?_, succeeds⟩
  rw [asked_of_patient rfl, hindrance_of_unlimited ((limit_after configuration call).trans unlimited)]

/-- Without a limit and a supervisor, a trace that is never refused changes no outcome. -/
theorem run_bare (freely : configuration.machine.TracesFreely)
    (unlimited : configuration.machine.limit = 0) (fuel : Nat) :
    (configuration.bare.run fuel {}).outcome = (configuration.run fuel {}).outcome ∧
      (configuration.bare.run fuel {}).store = (configuration.run fuel {}).store := by
  obtain ⟨calls, bound, passed, concludes⟩ := configuration.run_concludes fuel {}
  have passedBare : ∀ call < calls, configuration.bare.Passes {} call := by
    intro call early
    apply passes_of_unlimited rfl
    rw [error?_bare_after freely]
    exact (passed call early).succeeds
  obtain ⟨same, still⟩ := bare_after freely calls
  have free := hindrance_of_unlimited ((limit_after configuration calls).trans unlimited)
  have cut : configuration.bare.run (calls + (fuel - calls)) {} = _ := run_add passedBare
  rw [Nat.add_sub_cancel' bound, asked_of_patient rfl, same] at cut
  rw [cut]
  rw [asked_of_patient rfl] at concludes
  generalize configuration.run fuel {} = ending at concludes ⊢
  have freeBare : ((configuration.after calls).bare.machine.hindrance {}).1 = none := by
    rw [hindrance_of_unlimited rfl]
  have same : (configuration.after calls).bare.machine.halted =
    (configuration.after calls).machine.halted := rfl
  cases concludes with
  | halted stopped =>
      rw [run_of_halted (same.trans stopped)]
      exact ⟨rfl, rfl⟩
  | hindered _ hindered =>
      rw [free] at hindered
      cases hindered
  | failed running _ left failed =>
      obtain ⟨less, enough⟩ : ∃ less, fuel - calls = less + 1 := ⟨fuel - calls - 1, by omega⟩
      obtain ⟨reported, _, _⟩ := bare_step still
      rw [enough, run_of_failed (same.trans running) freeBare (reported.trans failed)]
      refine ⟨rfl, ?_⟩
      rw [next_eq_self rfl (reported.trans failed)]
      exact (congrArg Configuration.store (bare_next_of_error still failed)).symm
  | exhausted running _ spent =>
      rw [spent, run_of_exhausted (same.trans running) freeBare]
      exact ⟨rfl, rfl⟩

theorem Uneventful.mono {fewer : Nat} (uneventful : configuration.Uneventful calls)
    (early : fewer ≤ calls) : configuration.Uneventful fewer :=
  fun call before => uneventful call (Nat.lt_of_lt_of_le before early)

def EndsByItself (ending : Machine.Ending) : Prop :=
  ∀ error, ending.outcome = .error error →
    (∃ details, error = .fault details) ∨ error = .halted ∨
      ∃ problem, error = @MachineError.traceRefused problem

theorem endsByItself_of_error {error : MachineError} {ending : Machine.Ending}
    (failed : configuration.error? = some error) (outcome : ending.outcome = .error error) :
    EndsByItself ending := by
  intro other reported
  rw [outcome] at reported
  cases reported
  obtain ⟨stops, _⟩ := next_of_error failed
  cases stops with
  | halted => exact Or.inr (Or.inl rfl)
  | undecoded => exact Or.inl ⟨_, rfl⟩
  | untraced => exact Or.inr (Or.inr ⟨_, rfl⟩)
  | unperformed => exact Or.inl ⟨_, rfl⟩

theorem endsByItself_of_result {machine : Machine} {store : Store} {ending : Machine.Ending}
    (stopped : machine.halted = true) (outcome : ending.outcome = machine.result store) :
    EndsByItself ending := by
  intro error reported
  rw [outcome, Machine.result, if_pos stopped] at reported
  cases found : store.cell? machine.registers.stack with
  | some cell =>
      rw [found] at reported
      cases reported
  | none =>
      rw [found] at reported
      cases reported
      exact Or.inl ⟨_, rfl⟩

/-- If nothing hinders a run before a certain instruction and something does there, then it gets
there exactly if no earlier instruction fails or stops the machine. -/
theorem run_until {barrier : Nat} {error : MachineError}
    (running : configuration.machine.halted = false) (enough : barrier ≤ fuel)
    (free : ∀ call < barrier, (∀ earlier < call, configuration.Passes supervisor earlier) →
      ((configuration.after call).machine.hindrance (configuration.asked supervisor call)).1 = none)
    (blocked : (∀ earlier < barrier, configuration.Passes supervisor earlier) →
      ((configuration.after barrier).machine.hindrance
        (configuration.asked supervisor barrier)).1 = some error) :
    (configuration.Uneventful barrier ∧
      (configuration.run fuel supervisor).outcome = .error error ∧
      (configuration.run fuel supervisor).machine.steps = configuration.machine.steps + barrier) ∨
    (¬configuration.Uneventful barrier ∧ EndsByItself (configuration.run fuel supervisor) ∧
      (configuration.run fuel supervisor).machine.steps ≤
        configuration.machine.steps + barrier) := by
  obtain ⟨calls, bound, passed, concludes⟩ := configuration.run_concludes fuel supervisor
  have counted := steps_after fun call early => (passed call early).succeeds
  have within : calls ≤ barrier := by
    by_contra beyond
    have stuck := blocked fun earlier before => passed earlier (by omega)
    rw [(passed barrier (by omega)).free] at stuck
    cases stuck
  generalize configuration.run fuel supervisor = ending at concludes ⊢
  cases concludes with
  | halted stopped =>
      refine Or.inr ⟨fun uneventful => ?_, endsByItself_of_result stopped rfl, ?_⟩
      · have still := running_after running (uneventful.mono within)
        rw [stopped] at still
        cases still
      · rw [counted]
        omega
  | hindered going hindered =>
      by_cases there : calls = barrier
      · subst there
        rw [blocked passed] at hindered
        cases hindered
        exact Or.inl ⟨uneventful_of_passed passed going, rfl, counted⟩
      · rw [free calls (by omega) passed] at hindered
        cases hindered
  | failed going clear left failed =>
      refine Or.inr ⟨fun uneventful => ?_, endsByItself_of_error failed rfl, ?_⟩
      · by_cases there : calls = barrier
        · subst there
          rw [blocked passed] at clear
          cases clear
        · rw [(uneventful calls (by omega)).1] at failed
          cases failed
      · obtain ⟨_, trace, _, unchanged⟩ := next_of_error failed
        rw [unchanged]
        change (configuration.after calls).machine.steps ≤ _
        omega
  | exhausted going clear spent =>
      obtain rfl : calls = barrier := by omega
      rw [blocked passed] at clear
      cases clear

theorem steps_of_passed (begun : configuration.machine.steps = 0)
    (passed : ∀ earlier < calls, configuration.Passes supervisor earlier) :
    (configuration.after calls).machine.steps = calls := by
  rw [steps_after fun call early => (passed call early).succeeds, begun, Nat.zero_add]

def AgreesUpTo (supervisor : Supervisor) (calls : Nat) : Prop :=
  ∀ polls, supervisor.patience = some polls → calls ≤ Machine.askInterval * polls

theorem asked_of_passed {polls : Nat} {reason : Cancellation}
    (begun : configuration.machine.steps = 0)
    (passed : ∀ earlier < calls, configuration.Passes ⟨some polls, reason⟩ earlier) :
    configuration.asked ⟨some polls, reason⟩ calls =
      ⟨some (polls - (calls + 1023) / 1024), reason⟩ := by
  induction calls with
  | zero => rfl
  | succ calls ih =>
      have before : ∀ earlier < calls, configuration.Passes ⟨some polls, reason⟩ earlier :=
        fun earlier early => passed earlier (by omega)
      have free := (passed calls (Nat.lt_succ_self calls)).free
      have within := Machine.within_of_free free
      rw [asked]
      rw [ih before, Machine.hindrance_of_free within, steps_of_passed begun before] at *
      by_cases due : calls % Machine.askInterval = 0
      · rw [if_pos due] at free ⊢
        rw [Machine.askInterval] at due
        cases left : polls - (calls + 1023) / 1024 with
        | zero =>
            rw [left] at free
            cases free
        | succ patience =>
            have spent : patience = polls - (calls + 1 + 1023) / 1024 := by omega
            rw [← spent]
            rfl
      · rw [if_neg due]
        rw [Machine.askInterval] at due
        have same : (calls + 1023) / 1024 = (calls + 1 + 1023) / 1024 := by omega
        rw [same]

theorem free_of_passed (begun : configuration.machine.steps = 0)
    (within : configuration.machine.limit ≤ 0 ∨ calls < configuration.machine.limit)
    (agrees : AgreesUpTo supervisor (calls + 1))
    (passed : ∀ earlier < calls, configuration.Passes supervisor earlier) :
    ((configuration.after calls).machine.hindrance
      (configuration.asked supervisor calls)).1 = none := by
  have counted := steps_of_passed begun passed
  have below : (configuration.after calls).machine.limit ≤ 0 ∨
      ((configuration.after calls).machine.steps : Int) <
        (configuration.after calls).machine.limit := by
    rw [limit_after, counted]
    exact within
  rw [Machine.hindrance_of_free below, counted]
  split
  · rename_i due
    obtain ⟨_ | polls, reason⟩ := supervisor
    · rw [asked_of_patient rfl]
      rfl
    · have bound := agrees polls rfl
      rw [Machine.askInterval] at due bound
      rw [asked_of_passed begun passed]
      obtain ⟨patience, left⟩ : ∃ patience, polls - (calls + 1023) / 1024 = patience + 1 :=
        ⟨polls - (calls + 1023) / 1024 - 1, by omega⟩
      rw [left]
      rfl
  · rfl

/-- On a fresh machine the limit stops a run exactly if that many instructions can be executed. -/
theorem run_of_limit (begun : configuration.machine.steps = 0)
    (running : configuration.machine.halted = false) {limit : Nat} (positive : 0 < limit)
    (limited : configuration.machine.limit = limit) (agrees : AgreesUpTo supervisor limit)
    (enough : limit ≤ fuel) :
    (configuration.Uneventful limit ∧
      (configuration.run fuel supervisor).outcome = .error (.stepLimit limit) ∧
      (configuration.run fuel supervisor).machine.steps = limit) ∨
    (¬configuration.Uneventful limit ∧ EndsByItself (configuration.run fuel supervisor) ∧
      (configuration.run fuel supervisor).machine.steps ≤ limit) := by
  have free : ∀ call < limit, (∀ earlier < call, configuration.Passes supervisor earlier) →
      ((configuration.after call).machine.hindrance
        (configuration.asked supervisor call)).1 = none := by
    intro call early passed
    refine free_of_passed begun (Or.inr (by omega)) ?_ passed
    exact fun polls patient => Nat.le_trans early (agrees polls patient)
  have blocked : (∀ earlier < limit, configuration.Passes supervisor earlier) →
      ((configuration.after limit).machine.hindrance (configuration.asked supervisor limit)).1 =
        some (.stepLimit limit) := by
    intro passed
    have counted := steps_of_passed begun passed
    have capped := (limit_after configuration limit).trans limited
    rw [Machine.hindrance_of_limit (by omega) (by omega), counted]
  simpa [begun] using run_until running enough free blocked

/-- On a fresh machine a supervisor stops a run exactly if that many instructions can be executed and
the limit lies beyond them. -/
theorem run_of_cancellation (begun : configuration.machine.steps = 0)
    (running : configuration.machine.halted = false) (polls : Nat) (reason : Cancellation)
    (within : configuration.machine.limit ≤ 0 ∨
      ((1024 * polls : Nat) : Int) < configuration.machine.limit)
    (enough : 1024 * polls ≤ fuel) :
    (configuration.Uneventful (1024 * polls) ∧
      (configuration.run fuel ⟨some polls, reason⟩).outcome =
        .error (.cancelled (1024 * polls) reason) ∧
      (configuration.run fuel ⟨some polls, reason⟩).machine.steps = 1024 * polls) ∨
    (¬configuration.Uneventful (1024 * polls) ∧
      EndsByItself (configuration.run fuel ⟨some polls, reason⟩) ∧
      (configuration.run fuel ⟨some polls, reason⟩).machine.steps ≤ 1024 * polls) := by
  have free : ∀ call < 1024 * polls,
      (∀ earlier < call, configuration.Passes ⟨some polls, reason⟩ earlier) →
      ((configuration.after call).machine.hindrance
        (configuration.asked ⟨some polls, reason⟩ call)).1 = none := by
    intro call early passed
    refine free_of_passed begun (by omega) ?_ passed
    rintro _ ⟨⟩
    exact early
  have blocked : (∀ earlier < 1024 * polls,
        configuration.Passes ⟨some polls, reason⟩ earlier) →
      ((configuration.after (1024 * polls)).machine.hindrance
        (configuration.asked ⟨some polls, reason⟩ (1024 * polls))).1 =
          some (.cancelled (1024 * polls) reason) := by
    intro passed
    have counted := steps_of_passed begun passed
    rw [← limit_after configuration (1024 * polls)] at within
    rw [Machine.hindrance_of_free (by rwa [counted]), asked_of_passed begun passed, counted]
    have spent : polls - (1024 * polls + 1023) / 1024 = 0 := by omega
    have due : 1024 * polls % Machine.askInterval = 0 := Nat.mul_mod_right 1024 polls
    rw [spent, if_pos due]
    rfl
  simpa [begun] using run_until running enough free blocked

end

theorem EndsByItself.outcome_ne {ending : Machine.Ending} (ends : EndsByItself ending)
    {error : MachineError} (fault : ∀ details, error ≠ .fault details) (halted : error ≠ .halted)
    (refused : ∀ problem, error ≠ @MachineError.traceRefused problem) :
    ending.outcome ≠ .error error := by
  intro reported
  rcases ends error reported with ⟨details, same⟩ | same | ⟨problem, same⟩
  · exact fault details same
  · exact halted same
  · exact refused problem same

theorem obeyAll_eq_after {start : Configuration} (freely : start.machine.TracesFreely)
    (requests : List Request) :
    ∃ calls, (∀ call < calls, (start.after call).error? = none) ∧
      (start.obeyAll requests).machine.steps = start.machine.steps + calls ∧
      (start.obeyAll requests).bare = (start.after calls).bare := by
  obtain ⟨⟨calls, passedBare, arrived⟩, _⟩ := leads_obeyAll freely requests
  have passed : ∀ call < calls, (start.after call).error? = none := by
    intro call early
    rw [← error?_bare_after freely]
    exact passedBare call early
  rw [(bare_after freely calls).1] at arrived
  refine ⟨calls, passed, ?_, arrived⟩
  rw [← steps_after passed]
  exact congrArg (fun configuration => configuration.machine.steps) arrived

/-- A run without limit that goes on where successful instructions have led gives what it would have
given from the start. -/
theorem run_resumed {start reached : Configuration} {calls : Nat}
    (freely : start.machine.TracesFreely) (still : reached.machine.TracesFreely)
    (passed : ∀ call < calls, (start.after call).error? = none)
    (arrived : reached.bare = (start.after calls).bare) (fuel : Nat) :
    ((start.withLimit 0).run (calls + fuel) {}).outcome =
        ((reached.withLimit 0).run fuel {}).outcome ∧
      ((start.withLimit 0).run (calls + fuel) {}).store =
        ((reached.withLimit 0).run fuel {}).store := by
  have passedBare : ∀ call < calls, start.bare.Passes {} call := by
    intro call early
    apply passes_of_unlimited rfl
    rw [error?_bare_after freely]
    exact passed call early
  have cut : start.bare.run (calls + fuel) {} = reached.bare.run fuel {} := by
    rw [run_add passedBare, asked_of_patient rfl, (bare_after freely calls).1, arrived]
  have whole : start.bare.run (calls + fuel) {} = (start.withLimit 0).bare.run (calls + fuel) {} :=
    rfl
  have rest : reached.bare.run fuel {} = (reached.withLimit 0).bare.run fuel {} := rfl
  have outcomes := @run_bare (start.withLimit 0) freely rfl (calls + fuel)
  have resumed := @run_bare (reached.withLimit 0) still rfl fuel
  rw [← whole, cut, rest] at outcomes
  exact ⟨outcomes.1.symm.trans resumed.1, outcomes.2.symm.trans resumed.2⟩

/-- However a machine is stepped, run and stopped, it is where its instructions alone bring it, and
the last run gives what one run from the start gives. On a fresh machine the limit and the supervisor
stop a run exactly where they should. -/
theorem interruption_is_transparent (start : Configuration) :
    (start.machine.TracesFreely → ∀ requests,
      let reached := start.obeyAll requests
      let calls := reached.machine.steps - start.machine.steps
      start.machine.steps ≤ reached.machine.steps ∧
      (∀ call < calls, (start.after call).error? = none) ∧
      reached.registers = (start.after calls).registers ∧
      reached.store = (start.after calls).store ∧
      reached.machine.halted = (start.after calls).machine.halted ∧
      ∀ fuel, ((reached.withLimit 0).run fuel {}).outcome ≠ .error .exhausted →
        ∃ bound, ∀ larger, bound ≤ larger →
          ((start.withLimit 0).run larger {}).outcome =
            ((reached.withLimit 0).run fuel {}).outcome ∧
          ((start.withLimit 0).run larger {}).store = ((reached.withLimit 0).run fuel {}).store) ∧
    (start.machine.steps = 0 → start.machine.halted = false →
      (∀ limit : Nat, 0 < limit → start.machine.limit = limit → ∀ fuel, limit ≤ fuel →
        ((∃ steps, (start.run fuel {}).outcome = .error (.stepLimit steps)) ↔
          start.Uneventful limit) ∧
        ∀ steps, (start.run fuel {}).outcome = .error (.stepLimit steps) →
          steps = limit ∧ (start.run fuel {}).machine.steps = limit) ∧
      ∀ polls reason fuel, 1024 * polls ≤ fuel →
        let ending := start.run fuel ⟨some polls, reason⟩
        (start.Uneventful (1024 * polls) ∧
            ending.outcome = .error (.cancelled (1024 * polls) reason) ∧
            ending.machine.steps = 1024 * polls) ∨
          (¬start.Uneventful (1024 * polls) ∧ EndsByItself ending ∧
            ending.machine.steps ≤ 1024 * polls) ∨
          ∃ limit : Nat, start.machine.limit = limit ∧ 0 < limit ∧ limit ≤ 1024 * polls ∧
            ending.outcome = .error (.stepLimit limit) ∧ ending.machine.steps = limit) := by
  constructor
  · intro freely requests
    dsimp only
    obtain ⟨calls, passed, steps, arrived⟩ := obeyAll_eq_after freely requests
    have still := (leads_obeyAll freely requests).2
    generalize start.obeyAll requests = reached at steps arrived still ⊢
    obtain rfl : calls = reached.machine.steps - start.machine.steps := by omega
    refine ⟨by omega, passed, ?_, ?_, ?_, ?_⟩
    · exact congrArg (fun configuration => configuration.machine.registers) arrived
    · exact congrArg (fun configuration => configuration.store) arrived
    · exact congrArg (fun configuration => configuration.machine.halted) arrived
    · intro fuel ended
      refine ⟨reached.machine.steps - start.machine.steps + fuel, fun larger enough => ?_⟩
      obtain ⟨more, rfl⟩ := Nat.exists_eq_add_of_le enough
      have resumed := run_resumed freely still passed arrived fuel
      rw [run_mono (by rw [resumed.1]; exact ended)]
      exact resumed
  · intro begun running
    refine ⟨?_, ?_⟩
    · intro limit positive limited fuel enough
      have agrees : AgreesUpTo {} limit := by simp [AgreesUpTo]
      rcases run_of_limit begun running positive limited agrees enough with
        ⟨uneventful, outcome, steps⟩ | ⟨eventful, ends, _⟩
      · refine ⟨⟨fun _ => uneventful, fun _ => ⟨limit, outcome⟩⟩, ?_⟩
        intro reported same
        rw [outcome] at same
        cases same
        exact ⟨rfl, steps⟩
      · have never : ∀ steps, (start.run fuel {}).outcome ≠ .error (.stepLimit steps) :=
          fun steps => ends.outcome_ne (by simp) (by simp) (by simp)
        refine ⟨⟨fun ⟨steps, same⟩ => absurd same (never steps), fun quiet => absurd quiet eventful⟩,
          fun steps same => absurd same (never steps)⟩
    · intro polls reason fuel enough
      dsimp only
      by_cases within : start.machine.limit ≤ 0 ∨ ((1024 * polls : Nat) : Int) < start.machine.limit
      · exact (run_of_cancellation begun running polls reason within enough).imp id Or.inl
      · obtain ⟨limit, limited⟩ : ∃ limit : Nat, start.machine.limit = limit :=
          ⟨start.machine.limit.toNat, by omega⟩
        have agrees : AgreesUpTo ⟨some polls, reason⟩ limit := by
          rintro _ ⟨⟩
          rw [Machine.askInterval]
          omega
        have before : limit ≤ 1024 * polls := by omega
        rcases run_of_limit begun running (by omega) limited agrees (Nat.le_trans before enough) with
          ⟨_, outcome, steps⟩ | ⟨eventful, ends, steps⟩
        · exact Or.inr (Or.inr ⟨limit, limited, by omega, before, outcome, steps⟩)
        · refine Or.inr (Or.inl ⟨fun quiet => eventful (quiet.mono before), ends, ?_⟩)
          exact Nat.le_trans steps before

def interruptions : List Request :=
  [.run 0 ⟨some 0, .deadline⟩ 100, .step, .run 7 {} 100, .step]

theorem branchWithinCalls_interrupted :
    ((branchWithinCallsRun 0).obeyAll interruptions).machine.steps = 8 ∧
    ((branchWithinCallsRun 0).obeyAll interruptions).registers =
      (branchWithinCallsRun 8).registers ∧
    (∃ bound, ∀ larger, bound ≤ larger →
      (((branchWithinCallsRun 0).withLimit 0).run larger {}).outcome = .ok (.symbol "x")) ∧
    (((branchWithinCallsRun 0).withLimit 5).run 100 {}).machine.steps = 5 ∧
    (((branchWithinCallsRun 0).withLimit 5).run 100 ⟨some 0, .deadline⟩).machine.steps = 0 := by
  have steps : ((branchWithinCallsRun 0).obeyAll interruptions).machine.steps = 8 := by
    decide +kernel
  have silent : (branchWithinCallsRun 0).machine.TracesFreely := by
    rintro sink ⟨⟩
  have outcome : ((((branchWithinCallsRun 0).obeyAll interruptions).withLimit 0).run 100 {}).outcome
      = .ok (.symbol "x") := by decide +kernel
  have uneventful : ((branchWithinCallsRun 0).withLimit 5).Uneventful 5 := by
    unfold Uneventful
    decide +kernel
  obtain ⟨_, _, registers, _, _, resumed⟩ :=
    (interruption_is_transparent (branchWithinCallsRun 0)).1 silent interruptions
  obtain ⟨limits, polls⟩ :=
    (interruption_is_transparent ((branchWithinCallsRun 0).withLimit 5)).2 rfl rfl
  obtain ⟨reached, precise⟩ := limits 5 (by decide) rfl 100 (by decide)
  obtain ⟨_, stopped⟩ := reached.mpr uneventful
  refine ⟨steps, ?_, ?_, (precise _ stopped).2, ?_⟩
  · rw [registers, steps]
    rfl
  · obtain ⟨bound, same⟩ := resumed 100 (by rw [outcome]; simp)
    exact ⟨bound, fun larger enough => (same larger enough).1.trans outcome⟩
  · rcases polls 0 .deadline 100 (by decide) with
      ⟨_, _, counted⟩ | ⟨eventful, _⟩ | ⟨limit, _, positive, less, _⟩
    · exact counted
    · exact absurd (fun call early => absurd early (by omega)) eventful
    · omega

end Configuration

end SecdMachine
