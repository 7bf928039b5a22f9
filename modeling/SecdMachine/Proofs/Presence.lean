import SecdMachine.Proofs.Building
import SecdMachine.Proofs.CallReturn
import SecdMachine.Proofs.Lasting
import SecdMachine.Proofs.Runs

/-!
The absent value and the empty one never arise. A reader makes neither, and a machine that starts
from data without them makes neither: whatever its registers lead to in any later state is a pair, a
symbol or an integer.
-/

namespace SecdMachine

namespace Store

inductive Leads (store : Store) : Value → Value → Prop
  | here (value : Value) : Leads store value value
  | first {value target cell} (found : store.cell? value = some cell)
      (inner : Leads store cell.first target) : Leads store value target
  | second {value target cell} (found : store.cell? value = some cell)
      (inner : Leads store cell.second target) : Leads store value target

def Whole (store : Store) (value : Value) : Prop :=
  ∀ target, store.Leads value target → target.kind ≠ .empty

variable {store : Store} {value first second : Value} {cell : Cell}

theorem Whole.present (whole : store.Whole value) : value.kind ≠ .empty :=
  whole value (.here value)

theorem Whole.components (whole : store.Whole value) (found : store.cell? value = some cell) :
    store.Whole cell.first ∧ store.Whole cell.second :=
  ⟨fun target inner => whole target (.first found inner),
    fun target inner => whole target (.second found inner)⟩

/-- Values among which nothing is absent or empty are whole if components stay among them. -/
theorem whole_of_invariant (inside : Value → Prop)
    (present : ∀ value, inside value → value.kind ≠ .empty)
    (closed : ∀ value cell, inside value → store.cell? value = some cell →
      inside cell.first ∧ inside cell.second) (member : inside value) : store.Whole value := by
  intro target leads
  induction leads with
  | here value => exact present value member
  | first found _ ih => exact ih (closed _ _ member found).1
  | second found _ ih => exact ih (closed _ _ member found).2

theorem whole_of_atom (atom : value.isPair = false) (present : value.kind ≠ .empty) :
    store.Whole value := by
  intro target leads
  cases leads with
  | here => exact present
  | first found | second found =>
      obtain ⟨address, rfl⟩ := eq_pair_of_cell? found
      cases atom

theorem whole_region (store : Store) : store.Region store.Whole :=
  ⟨fun _ => whole_of_atom rfl (by simp [Value.kind]),
    fun _ => whole_of_atom rfl (by simp [Value.kind]), fun _ _ whole found => whole.components found⟩

theorem Whole.cons (firstWhole : store.Whole first) (secondWhole : store.Whole second)
    (whole : store.Whole value ∨ value = .pair store.size) :
    (store.cons first second).2.Whole value := by
  refine whole_of_invariant (fun value => store.Whole value ∨ value = .pair store.size)
    ?_ ?_ whole
  · rintro value (whole | rfl)
    · exact whole.present
    · simp [Value.kind]
  · intro value cell member found
    obtain ⟨address, rfl⟩ := eq_pair_of_cell? found
    by_cases new : address = store.size
    · subst new
      rw [cell?_cons_self] at found
      cases found
      exact ⟨Or.inl firstWhole, Or.inl secondWhole⟩
    · rw [cell?_cons_of_ne new] at found
      rcases member with whole | same
      · exact ⟨Or.inl (whole.components found).1, Or.inl (whole.components found).2⟩
      · exact absurd (Value.pair.inj same) new

theorem Whole.setFirst (firstWhole : store.Whole first) (target : Address)
    (whole : store.Whole value) : (store.setFirst target first).Whole value := by
  apply whole_of_invariant _ (fun _ => Whole.present) (fun value cell whole found => ?_) whole
  obtain ⟨address, rfl⟩ := eq_pair_of_cell? found
  by_cases hit : target = address
  · subst hit
    have bound : target < store.size := by simpa using lt_size_of_cell? found
    obtain ⟨old, present⟩ := exists_cell_of_lt_size bound
    rw [cell?_setFirst_self present] at found
    cases found
    exact ⟨firstWhole, (whole.components present).2⟩
  · rw [cell?_setFirst_of_ne hit] at found
    exact whole.components found

theorem lasting_whole : Lasting Whole where
  region _ := whole_region _
  cons firstWhole secondWhole :=
    ⟨firstWhole.cons secondWhole (Or.inr rfl), fun _ whole =>
      firstWhole.cons secondWhole (Or.inl whole)⟩
  setFirst firstWhole target _ := firstWhole.setFirst target

theorem Denotes.whole {datum : Datum} (denotes : store.Denotes value datum) : store.Whole value := by
  refine whole_of_invariant (fun value => ∃ datum, store.Denotes value datum) ?_ ?_
    ⟨datum, denotes⟩
  · rintro value ⟨datum, denotes⟩
    cases denotes <;> simp [Value.kind]
  · rintro value cell ⟨datum, denotes⟩ found
    cases denotes with
    | symbol | integer => cases found
    | pair here left right =>
        rw [here] at found
        cases found
        exact ⟨⟨_, left⟩, _, right⟩

theorem Whole.consReversed {items : List Value} {tail : Value}
    (whole : ∀ item ∈ items, store.Whole item) (tailWhole : store.Whole tail) :
    (store.consReversed items tail).2.Whole (store.consReversed items tail).1 ∧
      ∀ old, store.Whole old → (store.consReversed items tail).2.Whole old := by
  induction items generalizing store tail with
  | nil => exact ⟨tailWhole, fun _ => id⟩
  | cons item rest ih =>
      obtain ⟨here, others⟩ := List.forall_mem_cons.mp whole
      obtain ⟨last, kept⟩ := lasting_whole.cons here tailWhole
      obtain ⟨joined, later⟩ := ih (fun other member => kept _ (others other member)) last
      exact ⟨joined, fun old oldWhole => later old (kept old oldWhole)⟩

end Store

namespace Scanner

structure BuildsWhole (store : Store) (parsed : Parsed) : Prop where
  kept : ∀ old, store.Whole old → parsed.store.Whole old
  whole : ∀ value, parsed.outcome = .ok value → parsed.store.Whole value

variable {scanner next : Scanner} {store after : Store} {parsed : Parsed} {fuel : Nat}

theorem BuildsWhole.trans (first : BuildsWhole store ⟨.ok value, scanner, after⟩)
    (second : BuildsWhole after parsed) : BuildsWhole store parsed :=
  ⟨fun old whole => second.kept old (first.kept old whole), second.whole⟩

theorem BuildsWhole.items {value : Value} {items : List Value}
    (builds : BuildsWhole store ⟨.ok value, next, after⟩) (whole : ∀ item ∈ items, store.Whole item) :
    ∀ item ∈ value :: items, after.Whole item :=
  List.forall_mem_cons.mpr
    ⟨builds.whole _ rfl, fun item member => builds.kept _ (whole item member)⟩

theorem BuildsWhole.passed (builds : BuildsWhole store parsed) : BuildsWhole store parsed.passed := by
  obtain ⟨outcome, next, after⟩ := parsed
  cases outcome <;> exact ⟨builds.kept, builds.whole⟩

theorem BuildsWhole.join {outcome : Except ReadError Value} {items : List Value} {tail : Value}
    (builds : BuildsWhole store ⟨outcome, next, after⟩) (whole : ∀ item ∈ items, after.Whole item)
    (tailWhole : after.Whole tail) :
    BuildsWhole store (Parsed.join ⟨outcome, next, after⟩ items tail) := by
  obtain ⟨joined, kept⟩ := Store.Whole.consReversed whole tailWhole
  refine ⟨fun old oldWhole => kept old (builds.kept old oldWhole), ?_⟩
  rintro _ ⟨⟩
  exact joined

theorem buildsWhole_of_whole {value : Value} (whole : store.Whole value) (scanner : Scanner) :
    BuildsWhole store ⟨.ok value, scanner, store⟩ := by
  refine ⟨fun _ => id, ?_⟩
  rintro _ ⟨⟩
  exact whole

theorem builds_whole (fuel : Nat) :
    (∀ scanner store parsed, exp fuel scanner store = some parsed → BuildsWhole store parsed) ∧
      ∀ scanner store items parsed, (∀ item ∈ items, store.Whole item) →
        list fuel scanner store items = some parsed → BuildsWhole store parsed := by
  induction fuel with
  | zero =>
      constructor
      · intro _ _ _ built
        cases built
      · intro _ _ _ _ _ built
        cases built
  | succ fuel ih =>
      obtain ⟨expressions, lists⟩ := ih
      constructor
      · intro scanner store parsed built
        cases exp_cases built with
        | list opens unclosed inside => exact (lists _ _ _ _ (by simp) inside).passed
        | bad => exact ⟨fun _ => id, by simp⟩
        | empty => exact buildsWhole_of_whole (Store.whole_region store).nil _
        | integer | symbol =>
            exact buildsWhole_of_whole (Store.whole_of_atom rfl (by simp [Value.kind])) _
      · intro scanner store items parsed whole built
        cases list_cases built with
        | broken element => exact expressions _ _ _ element
        | brokenTail element dot ending =>
            exact (expressions _ _ _ element).trans (expressions _ _ _ ending)
        | dotted element dot ending =>
            have first := expressions _ _ _ element
            have second := expressions _ _ _ ending
            refine (first.trans second).join ?_ (second.whole _ rfl)
            exact fun item member => second.kept _ (first.items whole item member)
        | closed element noDot closes =>
            have first := expressions _ _ _ element
            exact first.join (first.items whole) (Store.whole_region _).nil
        | more element noDot unclosed others =>
            have first := expressions _ _ _ element
            exact first.trans (lists _ _ _ _ (first.items whole) others)

theorem getExp_whole (built : scanner.getExp fuel store = some parsed) : BuildsWhole store parsed := by
  rw [getExp] at built
  split at built
  next =>
    cases built
    exact ⟨fun _ => id, by simp⟩
  next =>
    cases built
    exact ⟨fun _ => id, by simp⟩
  next =>
    obtain ⟨⟨outcome, next, after⟩, result, built⟩ := Option.bind_eq_some_iff.mp built
    have whole := (builds_whole fuel).1 _ _ _ result
    split at built
    next =>
      cases built
      exact ⟨whole.kept, by simp⟩
    next =>
      cases built
      exact whole

end Scanner

namespace Configuration

def Whole (configuration : Configuration) : Prop :=
  ∀ value ∈ configuration.registers.values, configuration.store.Whole value

theorem whole_start {store : Store} {program arguments : Value} (programWhole : store.Whole program)
    (argumentsWhole : store.Whole arguments) (trace : Option Sink) :
    (start store program arguments trace).Whole := by
  have nil : store.Whole .nil := (store.whole_region).nil
  obtain ⟨stack, kept⟩ := Store.lasting_whole.cons argumentsWhole nil
  simp only [Whole, Registers.values, List.forall_mem_cons]
  exact ⟨stack, kept _ nil, kept _ programWhole, kept _ nil, by simp⟩

theorem Whole.result {configuration : Configuration} {value : Value} (whole : configuration.Whole)
    (result : configuration.machine.result configuration.store = .ok value) :
    configuration.store.Whole value := by
  rw [Machine.result] at result
  split at result
  · split at result
    next cell found =>
        cases result
        exact ((whole _ List.mem_cons_self).components found).1
    · cases result
  · cases result

def answering : List Opcode :=
  [.ld, .car, .atom, .eq]

theorem pushes_of_answering {configuration : Configuration} {opcode : Opcode}
    (kind : opcode ∈ answering) (completes : configuration.Completes opcode) :
    ∃ value below rest after, configuration.Executes opcode rest (.push value below after) := by
  obtain ⟨rest, effect, executes⟩ := completes.executes
  have performs := executes.performs
  simp only [answering, List.mem_cons, List.not_mem_nil, or_false] at kind
  rcases kind with rfl | rfl | rfl | rfl <;> cases performs <;> exact ⟨_, _, _, _, executes⟩

/-- Reading makes no absent or empty value, whatever the store holds, and nothing that is read later
brings one into what was read before. If the registers lead to none, neither do those of any later
state, nor what an instruction works with, nor the result. -/
theorem nothing_absent_arises :
    (∀ (fuel : Nat) (scanner : Scanner) (store : Store) (parsed : Scanner.Parsed),
      scanner.getExp fuel store = some parsed →
      (∀ value, parsed.outcome = .ok value → parsed.store.Whole value) ∧
        ∀ old, store.Whole old → parsed.store.Whole old) ∧
    (∀ start : Configuration, start.Whole →
      (∀ calls,
        let now := start.after calls
        now.Whole ∧
        (∀ opcode rest effect, now.Executes opcode rest effect →
          ∀ value ∈ effect.values ++ effect.taken, now.store.Whole value) ∧
        (∀ opcode ∈ answering, now.Completes opcode → ∃ value below,
          now.next.store.cell? now.next.registers.stack = some ⟨value, below⟩ ∧
            value.kind ≠ .empty) ∧
        ∀ value, now.machine.result now.store = .ok value → now.store.Whole value) ∧
      ∀ fuel supervisor value, (start.run fuel supervisor).outcome = .ok value →
        (start.run fuel supervisor).store.Whole value) := by
  constructor
  · intro fuel scanner store parsed built
    have builds := Scanner.getExp_whole built
    exact ⟨builds.whole, builds.kept⟩
  · intro start whole
    have later : ∀ calls, (start.after calls).Whole := Store.lasting_whole.after whole
    refine ⟨fun calls => ?_, ?_⟩
    · have whole := later calls
      refine ⟨whole, fun opcode rest effect => Store.lasting_whole.operated whole, ?_,
        fun value => whole.result⟩
      intro opcode kind completes
      obtain ⟨value, below, rest, after, executes⟩ := pushes_of_answering kind completes
      have operated := Store.lasting_whole.operated whole executes
      refine ⟨value, below, ?_, (operated value (by simp [Effect.values])).present⟩
      rw [executes.registers, executes.store]
      exact Store.cell?_cons_self
    · intro fuel supervisor value outcome
      obtain ⟨calls, _, _, concludes⟩ := start.run_concludes fuel supervisor
      generalize start.run fuel supervisor = ending at concludes outcome ⊢
      cases concludes with
      | halted => exact (later calls).result outcome
      | hindered | failed | exhausted => cases outcome

theorem branchWithinCalls_leads_to_nothing_absent :
    (∃ parsed, (∃ value, parsed.outcome = .ok value ∧ parsed.store.Whole value) ∧
      Scanner.getExp 100 { source := .ofText "(a () . -1)".toList } {} = some parsed) ∧
    (branchWithinCallsRun 0).Whole ∧ (branchWithinCallsRun 14).Whole ∧
    ((branchWithinCallsRun 11).Completes .ld ∧ ∃ value below,
      (branchWithinCallsRun 12).store.cell? (branchWithinCallsRun 12).registers.stack =
        some ⟨value, below⟩ ∧ value.kind ≠ .empty) ∧
    ((branchWithinCallsRun 0).run 100 {}).outcome = .ok (.symbol "x") ∧
    ((branchWithinCallsRun 0).run 100 {}).store.Whole (.symbol "x") := by
  obtain ⟨reading, running⟩ := nothing_absent_arises
  have read : (Reader.read {} (.ofText "(a () . -1)".toList)).outcome =
      .ok (.pair (.symbol "a") (.pair .nil (.integer (-1)))) := by decide +kernel
  obtain ⟨parsed, built, gives, _⟩ := Scanner.Follows.getExp (.new rfl) {} (by decide : 2 *
    Scanner.weight { source := .ofText "(a () . -1)".toList } + 1 ≤ 100)
  rw [read] at gives
  have whole : (branchWithinCallsRun 0).Whole :=
    whole_start (Store.denotes_load {} branchWithinCalls).whole (Store.whole_region _).nil none
  obtain ⟨states, results⟩ := running _ whole
  have answers : (branchWithinCallsRun 11).Completes .ld := by decide
  have outcome : ((branchWithinCallsRun 0).run 100 {}).outcome = .ok (.symbol "x") := by
    decide +kernel
  refine ⟨⟨parsed, ⟨_, gives.1, (reading _ _ _ _ built).1 _ gives.1⟩, built⟩, whole, (states 14).1,
    ⟨answers, (states 11).2.2.1 .ld (by decide) answers⟩, outcome, results 100 {} _ outcome⟩

end Configuration

end SecdMachine
