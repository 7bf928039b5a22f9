import SecdMachine.Proofs.Execution

/-!
A run is a number of calls of `step` that succeed, and a reason to end. `run_concludes` lists the
reasons, with the state in which each arises; `run_add` cuts a run at any of its instructions.
-/

namespace SecdMachine

namespace Configuration

def run (configuration : Configuration) (fuel : Nat) (supervisor : Supervisor) : Machine.Ending :=
  Machine.run fuel supervisor configuration.machine configuration.store

def asked (configuration : Configuration) (supervisor : Supervisor) : Nat → Supervisor
  | 0 => supervisor
  | calls + 1 =>
      ((configuration.after calls).machine.hindrance (configuration.asked supervisor calls)).2

structure Passes (configuration : Configuration) (supervisor : Supervisor) (call : Nat) : Prop where
  free : ((configuration.after call).machine.hindrance
    (configuration.asked supervisor call)).1 = none
  succeeds : (configuration.after call).error? = none

inductive Concludes (fuel : Nat) (supervisor : Supervisor) (last : Configuration) :
    Machine.Ending → Prop
  | halted (stopped : last.machine.halted = true) :
      Concludes fuel supervisor last
        ⟨last.machine.result last.store, supervisor, last.machine, last.store⟩
  | hindered {error} (running : last.machine.halted = false)
      (hindered : (last.machine.hindrance supervisor).1 = some error) :
      Concludes fuel supervisor last
        ⟨.error error, (last.machine.hindrance supervisor).2, last.machine, last.store⟩
  | failed {error} (running : last.machine.halted = false)
      (free : (last.machine.hindrance supervisor).1 = none) (left : 0 < fuel)
      (failed : last.error? = some error) :
      Concludes fuel supervisor last
        ⟨.error error, (last.machine.hindrance supervisor).2, last.next.machine, last.next.store⟩
  | exhausted (running : last.machine.halted = false)
      (free : (last.machine.hindrance supervisor).1 = none) (spent : fuel = 0) :
      Concludes fuel supervisor last
        ⟨.error .exhausted, (last.machine.hindrance supervisor).2, last.machine, last.store⟩

section

variable {configuration : Configuration} {supervisor : Supervisor} {fuel calls call : Nat}
  {error : MachineError}

theorem running_of_succeeds (succeeds : configuration.error? = none) :
    configuration.machine.halted = false := by
  rcases configuration.step_cases with ⟨_, _, failed, _⟩ | ⟨_, _, _, _, executes⟩
  · rw [succeeds] at failed
    cases failed
  · exact executes.running

theorem run_of_halted (stopped : configuration.machine.halted = true) :
    configuration.run fuel supervisor =
      ⟨configuration.machine.result configuration.store, supervisor, configuration.machine,
        configuration.store⟩ := by
  rw [run, Machine.run, if_pos stopped]

theorem run_of_hindered (running : configuration.machine.halted = false)
    (hindered : (configuration.machine.hindrance supervisor).1 = some error) :
    configuration.run fuel supervisor =
      ⟨.error error, (configuration.machine.hindrance supervisor).2, configuration.machine,
        configuration.store⟩ := by
  rw [run, Machine.run]
  cases asking : configuration.machine.hindrance supervisor with
  | mk reason later =>
      rw [asking] at hindered
      simp only at hindered
      simp [running, hindered]

theorem run_of_exhausted (running : configuration.machine.halted = false)
    (free : (configuration.machine.hindrance supervisor).1 = none) :
    configuration.run 0 supervisor =
      ⟨.error .exhausted, (configuration.machine.hindrance supervisor).2, configuration.machine,
        configuration.store⟩ := by
  rw [run, Machine.run]
  cases asking : configuration.machine.hindrance supervisor with
  | mk reason later =>
      rw [asking] at free
      simp only at free
      simp [running, free]

theorem run_of_failed (running : configuration.machine.halted = false)
    (free : (configuration.machine.hindrance supervisor).1 = none)
    (failed : configuration.error? = some error) :
    configuration.run (fuel + 1) supervisor =
      ⟨.error error, (configuration.machine.hindrance supervisor).2, configuration.next.machine,
        configuration.next.store⟩ := by
  rw [run, Machine.run]
  rw [error?] at failed
  cases asking : configuration.machine.hindrance supervisor with
  | mk reason later =>
      rw [asking] at free
      simp only at free
      cases stepped : configuration.machine.step configuration.store with
      | mk reported after =>
          rw [stepped] at failed
          simp only at failed
          simp [running, free, failed, next, stepped]

theorem run_of_passes (free : (configuration.machine.hindrance supervisor).1 = none)
    (succeeds : configuration.error? = none) :
    configuration.run (fuel + 1) supervisor =
      configuration.next.run fuel (configuration.machine.hindrance supervisor).2 := by
  have running := running_of_succeeds succeeds
  rw [run, Machine.run]
  rw [error?] at succeeds
  cases asking : configuration.machine.hindrance supervisor with
  | mk reason later =>
      rw [asking] at free
      simp only at free
      cases stepped : configuration.machine.step configuration.store with
      | mk reported after =>
          rw [stepped] at succeeds
          simp only at succeeds
          simp [running, free, succeeds, next, stepped, run]

theorem after_succ (configuration : Configuration) (calls : Nat) :
    configuration.after (calls + 1) = configuration.next.after calls := by
  rw [Nat.add_comm, after_add]
  rfl

theorem asked_succ (configuration : Configuration) (supervisor : Supervisor) (calls : Nat) :
    configuration.asked supervisor (calls + 1) =
      configuration.next.asked (configuration.machine.hindrance supervisor).2 calls := by
  induction calls with
  | zero => rfl
  | succ calls ih =>
      rw [asked, ih, after_succ]
      rfl

theorem passes_succ {call : Nat}
    (passes : configuration.next.Passes (configuration.machine.hindrance supervisor).2 call) :
    configuration.Passes supervisor (call + 1) := by
  constructor
  · rw [after_succ, asked_succ]
    exact passes.free
  · rw [after_succ]
    exact passes.succeeds

theorem concludes_or_passes (configuration : Configuration) (fuel : Nat)
    (supervisor : Supervisor) :
    Concludes fuel supervisor configuration (configuration.run fuel supervisor) ∨
      ∃ less, fuel = less + 1 ∧ configuration.Passes supervisor 0 := by
  cases stopped : configuration.machine.halted with
  | true =>
      rw [run_of_halted stopped]
      exact Or.inl (.halted stopped)
  | false =>
      cases free : (configuration.machine.hindrance supervisor).1 with
      | some error =>
          rw [run_of_hindered stopped free]
          exact Or.inl (.hindered stopped free)
      | none =>
          cases fuel with
          | zero =>
              rw [run_of_exhausted stopped free]
              exact Or.inl (.exhausted stopped free rfl)
          | succ fuel =>
              cases reported : configuration.error? with
              | some error =>
                  rw [run_of_failed stopped free reported]
                  exact Or.inl (.failed stopped free (Nat.succ_pos fuel) reported)
              | none => exact Or.inr ⟨fuel, rfl, free, reported⟩

/-- Every run passes a number of calls of `step` and then ends for one of four reasons. -/
theorem run_concludes (configuration : Configuration) (fuel : Nat) (supervisor : Supervisor) :
    ∃ calls, calls ≤ fuel ∧ (∀ call < calls, configuration.Passes supervisor call) ∧
      Concludes (fuel - calls) (configuration.asked supervisor calls) (configuration.after calls)
        (configuration.run fuel supervisor) := by
  induction fuel generalizing configuration supervisor with
  | zero =>
      rcases configuration.concludes_or_passes 0 supervisor with concludes | ⟨less, same, _⟩
      · exact ⟨0, Nat.le_refl 0, by simp, concludes⟩
      · omega
  | succ fuel ih =>
      rcases configuration.concludes_or_passes (fuel + 1) supervisor with concludes | ⟨_, _, first⟩
      · exact ⟨0, Nat.zero_le _, by simp, concludes⟩
      · obtain ⟨calls, bound, passed, concludes⟩ := ih configuration.next
          (configuration.machine.hindrance supervisor).2
        have onward : configuration.run (fuel + 1) supervisor = configuration.next.run fuel
          (configuration.machine.hindrance supervisor).2 := run_of_passes first.free first.succeeds
        refine ⟨calls + 1, by omega, ?_, ?_⟩
        · intro call early
          cases call with
          | zero => exact first
          | succ call => exact passes_succ (passed call (by omega))
        · rw [onward, after_succ, asked_succ, Nat.add_sub_add_right]
          exact concludes

/-- A run that passes some calls of `step` goes on as a run from the state after them. -/
theorem run_add (passed : ∀ call < calls, configuration.Passes supervisor call) :
    configuration.run (calls + fuel) supervisor =
      (configuration.after calls).run fuel (configuration.asked supervisor calls) := by
  induction calls generalizing fuel with
  | zero =>
      rw [Nat.zero_add]
      rfl
  | succ calls ih =>
      have last := passed calls (Nat.lt_succ_self calls)
      rw [Nat.add_assoc, Nat.add_comm 1, ih fun call early => passed call (by omega),
        run_of_passes last.free last.succeeds]
      rfl

theorem Concludes.run_eq {last : Configuration} {ending : Machine.Ending}
    (concludes : Concludes fuel supervisor last ending)
    (ended : ending.outcome ≠ .error .exhausted) (more : Nat) :
    last.run (fuel + more) supervisor = ending := by
  cases concludes with
  | halted stopped => exact run_of_halted stopped
  | hindered running hindered => exact run_of_hindered running hindered
  | failed running free left failed =>
      obtain ⟨less, same⟩ : ∃ less, fuel + more = less + 1 := ⟨fuel + more - 1, by omega⟩
      rw [same]
      exact run_of_failed running free failed
  | exhausted => exact absurd rfl ended

/-- A run that has ended is the same under every larger bound. -/
theorem run_mono (ended : (configuration.run fuel supervisor).outcome ≠ .error .exhausted)
    (more : Nat) :
    configuration.run (fuel + more) supervisor = configuration.run fuel supervisor := by
  obtain ⟨calls, bound, passed, concludes⟩ := configuration.run_concludes fuel supervisor
  have cut : fuel + more = calls + (fuel - calls + more) := by omega
  rw [cut, run_add passed]
  exact concludes.run_eq ended more

end

end Configuration

end SecdMachine
