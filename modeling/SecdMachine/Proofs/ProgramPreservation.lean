import SecdMachine.Proofs.Attribution
import SecdMachine.Proofs.ControlSafety

/-!
Running a program leaves it as it is. In a run that applies only closures of its own and returns
only from calls, a recursive call overwrites a frame that DUM or AP added in that run, so no pair
that was there before the run ever changes.
-/

namespace SecdMachine

namespace Configuration

def ReturnsFromCalls (run : Nat → Configuration) (calls : Nat) : Prop :=
  ∀ call < calls, (run call).Completes .rtn → ∃ earlier < call,
    ((run earlier).Completes .ap ∨ (run earlier).Completes .rap) ∧
    (run (earlier + 1)).registers.dump = (run call).registers.dump

theorem ReturnsFromCalls.mono {run : Nat → Configuration} {calls more : Nat}
    (returns : ReturnsFromCalls run more) (fewer : calls ≤ more) : ReturnsFromCalls run calls :=
  fun call bound => returns call (Nat.lt_of_lt_of_le bound fewer)

structure MakesFrame (configuration : Configuration) (address : Address) : Prop where
  completes : configuration.Completes .dum ∨ configuration.Completes .ap
  allocates : configuration.Allocates address
  environment : configuration.next.registers.environment = .pair address

theorem MakesFrame.not_mem_cells {configuration : Configuration} {address : Address}
    {entry : Entry} (makes : configuration.MakesFrame address)
    (enters : Enters configuration entry) : address ∉ entry.cells := by
  intro member
  have environment := makes.environment
  rcases makes.completes with dum | ap
  · rcases enters.cases with ⟨_, _, _, called | called, _⟩ | ⟨_, branched, _⟩
    · cases dum.unique called
    · cases dum.unique called
    · cases dum.unique branched
  · rcases enters.cases with ⟨_, _, _, _, rfl⟩ | ⟨_, branched, _⟩
    · -- The cells of the entry are the four before the frame.
      obtain ⟨_, upper⟩ := mem_cells_callEntry.mp member
      obtain ⟨_, _, executes⟩ := ap.executes
      rw [executes.registers] at environment
      cases executes.performs with
      | ap =>
          rw [Effect.environment_call, Value.pair.injEq] at environment
          exact absurd upper (environment ▸ Nat.lt_irrefl _)
      | arithmetic kind => simp [Opcode.isArithmetic] at kind
    · cases ap.unique branched

theorem allocates_of_ldf {configuration : Configuration}
    (completes : configuration.Completes .ldf) :
    ∃ closure, configuration.Allocates closure ∧
      configuration.next.store.first configuration.next.registers.stack = .pair closure := by
  obtain ⟨_, _, executes⟩ := completes.executes
  cases executes.performs with
  | ldf =>
      refine ⟨configuration.store.size, ⟨Nat.le_refl _, ?_⟩, ?_⟩
      · rw [executes.store]
        exact Store.lt_size_of_cell? Effect.cell?_pushPair
      · rw [executes.registers, executes.store]
        exact Store.first_of_cell? Store.cell?_cons_self
  | arithmetic kind => simp [Opcode.isArithmetic] at kind

/-- What holds before each call of `step`: the frames are those that DUM and AP added, the closures
include those that LDF made, and the entries of the dump are those that calls and branches made. -/
structure Accounted (base : Nat) (run : Nat → Configuration) (calls : Nat)
    (frames : Address → Prop) (closures : Address → Value → Prop) (entries : List Entry) :
    Prop where
  framed : Framed base frames closures entries (run calls)
  known : KnowsClosures run calls closures
  entered : Entered run calls entries
  made : ∀ address, frames address → ∃ earlier < calls, (run earlier).MakesFrame address

namespace Accounted

variable {base calls : Nat} {configuration : Configuration} {frames : Address → Prop}
  {closures : Address → Value → Prop} {entries : List Entry} {address : Address}

theorem next_of_error
    (accounted : Accounted base configuration.after calls frames closures entries)
    {error : MachineError} (failed : (configuration.after calls).error? = some error) :
    Accounted base configuration.after (calls + 1) frames closures entries := by
  obtain ⟨_, _, _, unchanged⟩ := Configuration.next_of_error failed
  refine ⟨accounted.framed.of_unchanged unchanged, accounted.known.next_of_error failed,
    accounted.entered.mono, ?_⟩
  intro address known
  obtain ⟨earlier, order, makes⟩ := accounted.made address known
  exact ⟨earlier, Nat.lt_succ_of_lt order, makes⟩

theorem call_of_returned
    (accounted : Accounted base configuration.after calls frames closures entries)
    (returns : ReturnsFromCalls configuration.after (calls + 1))
    (completes : (configuration.after calls).Completes .rtn) {top : Entry} {below : List Entry}
    (split : entries = top :: below) :
    ∃ cells stack environment control, top.saved = .call cells stack environment control := by
  subst split
  obtain ⟨earlier, _, called, same⟩ := returns calls (Nat.lt_succ_self calls) completes
  obtain ⟨_, _, enters⟩ := accounted.entered top List.mem_cons_self
  have here := enters.of_dump (Or.inl called) (same.trans accounted.framed.dump)
  rcases here.cases with ⟨_, _, _, _, rfl⟩ | ⟨_, branched, _⟩
  · exact ⟨_, _, _, _, rfl⟩
  · exact absurd called (not_call_of_sel branched)

theorem next (accounted : Accounted base configuration.after calls frames closures entries)
    (own : AppliesOwnClosures configuration.after (calls + 1))
    (returns : ReturnsFromCalls configuration.after (calls + 1)) :
    ∃ frames closures entries,
      Accounted base configuration.after (calls + 1) frames closures entries := by
  rcases (configuration.after calls).step_cases with ⟨error, _, failed, _⟩ |
    ⟨succeeded, opcode, rest, effect, executes⟩
  · exact ⟨frames, closures, entries, accounted.next_of_error failed⟩
  · have completes := completes_of_executes succeeded executes
    have applied : opcode = .ap ∨ opcode = .rap →
        Framed.Applies closures (configuration.after calls) := by
      rintro (rfl | rfl)
      · exact accounted.known.applies own (Or.inl completes)
      · exact accounted.known.applies own (Or.inr completes)
    have returned : opcode = .rtn → ∀ top below, entries = top :: below →
        ∃ cells stack environment control,
          top.saved = .call cells stack environment control := by
      rintro rfl top below split
      exact accounted.call_of_returned returns completes split
    obtain ⟨moreFrames, moreClosures, later, framed, moves, makes, adds⟩ :=
      accounted.framed.step executes applied returned
    refine ⟨moreFrames, moreClosures, later, framed, accounted.known.next executes makes,
      accounted.entered.next completes moves, ?_⟩
    intro address known
    rcases adds address known with old | ⟨kind, fresh, environment⟩
    · obtain ⟨earlier, order, made⟩ := accounted.made address old
      exact ⟨earlier, Nat.lt_succ_of_lt order, made⟩
    · refine ⟨calls, Nat.lt_succ_self calls, ?_, ⟨fresh, framed.lt_size known⟩, environment⟩
      rcases kind with rfl | rfl
      · exact Or.inl completes
      · exact Or.inr completes

/-- A recursive call overwrites a frame. -/
theorem frame_of_completesFrame
    (accounted : Accounted base configuration.after calls frames closures entries)
    (own : AppliesOwnClosures configuration.after (calls + 1))
    (completes : (configuration.after calls).Completes .rap)
    (overwrites : (configuration.after calls).CompletesFrame address) : frames address := by
  obtain ⟨closure, below, _, _, body, _, top, _, applied, _⟩ := overwrites
  have applies := accounted.known.applies own (Or.inr completes)
  exact Framed.frame_of_pair (accounted.framed.environment_of_applied applies top applied)

theorem kept (accounted : Accounted base configuration.after calls frames closures entries)
    (own : AppliesOwnClosures configuration.after (calls + 1)) (old : address < base) {cell : Cell}
    (found : (configuration.after calls).store.cell? (.pair address) = some cell) :
    (configuration.after (calls + 1)).store.cell? (.pair address) = some cell := by
  by_contra changed
  obtain ⟨completes, overwrites⟩ := completesFrame_of_changes ⟨cell, found, changed⟩
  have known := accounted.frame_of_completesFrame own completes overwrites
  exact absurd (accounted.framed.linked address known).1 (Nat.not_le_of_lt old)

end Accounted

section

variable {store : Store} {program arguments : Value} {trace : Option Sink} {calls : Nat}

theorem accounted_after
    (own : AppliesOwnClosures (start store program arguments trace).after calls)
    (returns : ReturnsFromCalls (start store program arguments trace).after calls) :
    ∃ frames closures entries,
      Accounted (start store program arguments trace).store.size
        (start store program arguments trace).after calls frames closures entries := by
  induction calls with
  | zero =>
      refine ⟨_, _, _, framed_start trace (Nat.le_refl _), ?_, ?_, ?_⟩
      · intro earlier none
        exact absurd none (Nat.not_lt_zero earlier)
      · simp [Entered]
      · simp
  | succ calls ih =>
      have fewer := Nat.le_succ calls
      obtain ⟨frames, closures, entries, accounted⟩ := ih (own.mono fewer) (returns.mono fewer)
      exact accounted.next own returns

theorem cell?_after (own : AppliesOwnClosures (start store program arguments trace).after calls)
    (returns : ReturnsFromCalls (start store program arguments trace).after calls)
    {address : Address} {cell : Cell}
    (found : (start store program arguments trace).store.cell? (.pair address) = some cell) :
    ((start store program arguments trace).after calls).store.cell? (.pair address) =
      some cell := by
  induction calls with
  | zero => exact found
  | succ calls ih =>
      have fewer := Nat.le_succ calls
      obtain ⟨frames, closures, entries, accounted⟩ :=
        accounted_after (own.mono fewer) (returns.mono fewer)
      exact accounted.kept own (Store.lt_size_of_cell? found)
        (ih (own.mono fewer) (returns.mono fewer))

end

/-- As long as a run has applied only closures of its own and returned only from calls, every pair
that a recursive call overwrote is a frame that DUM or AP added in that run: not a pair from before
the run, not a closure, and not a cell of the dump or of a saved call frame. So every pair from
before the run has kept both components. -/
theorem running_keeps_the_program (store : Store) (program arguments : Value)
    (trace : Option Sink) (calls : Nat)
    (own : AppliesOwnClosures (start store program arguments trace).after calls)
    (returns : ReturnsFromCalls (start store program arguments trace).after calls) :
    let run := (start store program arguments trace).after
    (∀ call < calls, ∀ address, (run call).Completes .rap →
      (run call).CompletesFrame address →
      (run 0).store.size ≤ address ∧
      (∃ earlier < call, (run earlier).MakesFrame address) ∧
      (∀ other, (run other).Completes .ldf →
        (run (other + 1)).store.first (run (other + 1)).registers.stack ≠ .pair address) ∧
      ∀ other entry, Enters (run other) entry → address ∉ entry.cells) ∧
    (∀ address cell, (run 0).store.cell? (.pair address) = some cell →
      (run calls).store.cell? (.pair address) = some cell) ∧
    ∀ address cell, store.cell? (.pair address) = some cell →
      (run calls).store.cell? (.pair address) = some cell := by
  intro run
  refine ⟨?_, fun address cell => cell?_after own returns, ?_⟩
  · intro call early address completes overwrites
    obtain ⟨frames, closures, entries, accounted⟩ :=
      accounted_after (own.mono (Nat.le_of_lt early)) (returns.mono (Nat.le_of_lt early))
    have known := accounted.frame_of_completesFrame (own.mono early) completes overwrites
    obtain ⟨earlier, order, makes⟩ := accounted.made address known
    refine ⟨(accounted.framed.linked address known).1, ⟨earlier, order, makes⟩, ?_, ?_⟩
    · intro other made same
      -- A closure and a frame come from different instructions, so they are different cells.
      obtain ⟨closure, allocates, top⟩ := allocates_of_ldf made
      have shared : Value.pair closure = .pair address := top.symm.trans same
      rw [Value.pair.injEq] at shared
      subst shared
      obtain rfl := makes.allocates.unique allocates
      rcases makes.completes with dum | ap
      · cases dum.unique made
      · cases ap.unique made
    · intro other entry enters member
      obtain rfl := makes.allocates.unique (enters.allocates member)
      exact makes.not_mem_cells enters member
  · intro address cell found
    exact cell?_after own returns (Store.cell?_cons_of_some found)

theorem branchWithinCalls_returnsFromCalls (calls : Nat) :
    ReturnsFromCalls branchWithinCallsRun calls := by
  have returning : ∀ call < 18, (branchWithinCallsRun call).Completes .rtn →
      call = 15 ∨ call = 16 := by decide
  intro call _ completes
  by_cases early : call < 18
  · rcases returning call early completes with rfl | rfl
    · exact ⟨10, by decide, by decide, by decide⟩
    · exact ⟨5, by decide, by decide, by decide⟩
  · rw [branchWithinCallsRun_of_le (Nat.le_of_not_lt early)] at completes
    exact absurd completes (by decide)

theorem branchWithinCalls_keeps_the_program :
    ((branchWithinCallsRun 5).Completes .rap ∧ (branchWithinCallsRun 5).CompletesFrame 34 ∧
      (branchWithinCallsRun 0).store.size ≤ 34 ∧
      ∃ earlier < 5, (branchWithinCallsRun earlier).MakesFrame 34) ∧
    ∀ calls address cell, (Store.load {} branchWithinCalls).2.cell? (.pair address) = some cell →
      (branchWithinCallsRun calls).store.cell? (.pair address) = some cell := by
  have keeps := fun calls => running_keeps_the_program _ _ .nil none calls
    (branchWithinCalls_appliesOwnClosures calls) (branchWithinCalls_returnsFromCalls calls)
  have changes : (branchWithinCallsRun 5).Changes 34 := ⟨⟨.nil, .nil⟩, by decide, by decide⟩
  obtain ⟨completes, overwrites⟩ := completesFrame_of_changes changes
  obtain ⟨new, made, _⟩ := (keeps 6).1 5 (by decide) 34 completes overwrites
  exact ⟨⟨completes, overwrites, new, made⟩, fun calls => (keeps calls).2.2⟩

end Configuration

end SecdMachine
