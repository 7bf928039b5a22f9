import SecdMachine.Proofs.Dump
import SecdMachine.Proofs.Reachability

/-!
Properties of values that last. If a property holds of all that a store makes of values that have it,
and is not lost by what becomes of the store, then it holds of the registers for as long as the
machine runs. Nothing needs to be said about single instructions for that.
-/

namespace SecdMachine

/-- Values with the property have it for good: it holds of atoms and of components, new pairs of such
values have it, and neither a new pair nor a new first component takes it from any value. -/
structure Lasting (good : Store → Value → Prop) : Prop where
  region : ∀ {store value}, good store value → store.Region (good store)
  cons : ∀ {store first second}, good store first → good store second →
    good (store.cons first second).2 (store.cons first second).1 ∧
      ∀ value, good store value → good (store.cons first second).2 value
  setFirst : ∀ {store first}, good store first → ∀ target value, good store value →
    good (store.setFirst target first) value

/-- A property of dumps beside one of values: nothing that becomes of values with theirs takes it from
a dump, and a dump with one more such value has it again and leaves the values as they were. -/
structure Keeps (good pending : Store → Value → Prop) : Prop where
  cons : ∀ {store first second dump}, good store first → good store second → pending store dump →
    pending (store.cons first second).2 dump
  setFirst : ∀ {store first target dump}, good store first → good store (.pair target) →
    pending store dump → pending (store.setFirst target first) dump
  save : ∀ {store entry dump}, good store entry → pending store dump →
    pending (store.cons entry dump).2 (store.cons entry dump).1 ∧
      ∀ value, good store value → good (store.cons entry dump).2 value

def Registers.current (registers : Registers) : List Value :=
  [registers.stack, registers.environment, registers.control]

theorem Registers.forall_mem_values {registers : Registers} {holds : Value → Prop} :
    (∀ value ∈ registers.values, holds value) ↔
      (∀ value ∈ registers.current, holds value) ∧ holds registers.dump := by
  simp [values, current, and_assoc]

namespace Lasting

variable {good pending : Store → Value → Prop} {store : Store} {registers : Registers} {effect : Effect}
  {before : Configuration}

theorem list (lasting : Lasting good) {ground : Value} (grounded : good store ground)
    {elements : List Value} (held : ∀ element ∈ elements, good store element) :
    good (store.list elements).2 (store.list elements).1 ∧
      ∀ value, good store value → good (store.list elements).2 value := by
  induction elements with
  | nil => exact ⟨(lasting.region grounded).nil, fun _ => id⟩
  | cons element elements ih =>
      rw [List.forall_mem_cons] at held
      obtain ⟨tail, kept⟩ := ih held.2
      obtain ⟨made, keptStill⟩ := lasting.cons (kept element held.1) tail
      rw [Store.list_cons]
      exact ⟨made, fun value old => keptStill value (kept value old)⟩

theorem kept_list (lasting : Lasting good) (keeps : Keeps good pending) {elements : List Value}
    (held : ∀ element ∈ elements, good store element) {dump : Value}
    (dumpHeld : pending store dump) : pending (store.list elements).2 dump := by
  induction elements with
  | nil => exact dumpHeld
  | cons element elements ih =>
      rw [List.forall_mem_cons] at held
      obtain ⟨tail, kept⟩ := lasting.list held.1 held.2
      rw [Store.list_cons]
      exact keeps.cons (kept element held.1) tail (ih held.2)

theorem keeps (lasting : Lasting good) : Keeps good good where
  cons first second held := (lasting.cons first second).2 _ held
  setFirst first _ held := lasting.setFirst first _ _ held
  save entry dump := lasting.cons entry dump

theorem saveCall (lasting : Lasting good) (keeps : Keeps good pending)
    {stack environment control dump : Value} (stackHeld : good store stack)
    (environmentHeld : good store environment) (controlHeld : good store control)
    (dumpHeld : pending store dump) :
    pending (store.saveCall stack environment control dump)
        (.pair (store.list [stack, environment, control]).2.size) ∧
      ∀ value, good store value → good (store.saveCall stack environment control dump) value := by
  have saved : ∀ value ∈ [stack, environment, control], good store value := by
    simp only [List.forall_mem_cons]
    exact ⟨stackHeld, environmentHeld, controlHeld, by simp⟩
  obtain ⟨entry, kept⟩ := lasting.list stackHeld saved
  obtain ⟨made, keptStill⟩ := keeps.save entry (lasting.kept_list keeps saved dumpHeld)
  exact ⟨made, fun value old => keptStill value (kept value old)⟩

theorem put (lasting : Lasting good) (keeps : Keeps good pending)
    (held : ∀ value ∈ registers.current, good store value) (dumpHeld : pending store registers.dump)
    (given : ∀ value ∈ effect.values, good store value) (quiet : effect.taken = []) :
    (∀ value ∈ (effect.perform registers store).1.current,
      good (effect.perform registers store).2 value) ∧
      pending (effect.perform registers store).2 (effect.perform registers store).1.dump := by
  simp only [Registers.current, List.forall_mem_cons] at held ⊢
  obtain ⟨stackHeld, environmentHeld, controlHeld, _⟩ := held
  cases effect with
  | push value stack control =>
      simp only [Effect.values, List.forall_mem_cons] at given
      obtain ⟨valueHeld, belowHeld, nextHeld, _⟩ := given
      obtain ⟨made, kept⟩ := lasting.cons valueHeld belowHeld
      exact ⟨⟨made, kept _ environmentHeld, kept _ nextHeld, by simp⟩,
        keeps.cons valueHeld belowHeld dumpHeld⟩
  | pushPair first second stack control =>
      simp only [Effect.values, List.forall_mem_cons] at given
      obtain ⟨firstHeld, secondHeld, belowHeld, nextHeld, _⟩ := given
      obtain ⟨pair, paired⟩ := lasting.cons firstHeld secondHeld
      obtain ⟨made, pushed⟩ := lasting.cons pair (paired _ belowHeld)
      have kept := fun value old => pushed value (paired value old)
      exact ⟨⟨made, kept _ environmentHeld, kept _ nextHeld, by simp⟩,
        keeps.cons pair (paired _ belowHeld) (keeps.cons firstHeld secondHeld dumpHeld)⟩
  | call code frame environment stack control =>
      simp only [Effect.values, List.forall_mem_cons] at given
      obtain ⟨codeHeld, frameHeld, outerHeld, belowHeld, nextHeld, _⟩ := given
      obtain ⟨dump, saved⟩ := lasting.saveCall keeps belowHeld environmentHeld nextHeld dumpHeld
      obtain ⟨made, framed⟩ := lasting.cons (saved _ frameHeld) (saved _ outerHeld)
      exact ⟨⟨(lasting.region made).nil, made, framed _ (saved _ codeHeld), by simp⟩,
        keeps.cons (saved _ frameHeld) (saved _ outerHeld) dump⟩
  | callRecursive closure frame environment stack outer control =>
      simp only [Effect.values, List.forall_mem_cons] at given
      obtain ⟨closureHeld, frameHeld, innerHeld, belowHeld, outerHeld, nextHeld, _⟩ := given
      obtain ⟨dump, saved⟩ := lasting.saveCall keeps belowHeld outerHeld nextHeld dumpHeld
      have completed := lasting.setFirst (saved _ frameHeld) environment
      have region := lasting.region (completed _ (saved _ closureHeld))
      exact ⟨⟨region.nil, completed _ (saved _ innerHeld),
        region.first (completed _ (saved _ closureHeld)), by simp⟩,
        keeps.setFirst (saved _ frameHeld) (saved _ innerHeld) dump⟩
  | extend control =>
      simp only [Effect.values, List.forall_mem_cons] at given
      have nil := (lasting.region environmentHeld).nil
      obtain ⟨made, kept⟩ := lasting.cons nil environmentHeld
      exact ⟨⟨kept _ stackHeld, made, kept _ given.1, by simp⟩,
        keeps.cons nil environmentHeld dumpHeld⟩
  | branch code stack control =>
      simp only [Effect.values, List.forall_mem_cons] at given
      obtain ⟨codeHeld, belowHeld, nextHeld, _⟩ := given
      obtain ⟨made, kept⟩ := keeps.save nextHeld dumpHeld
      exact ⟨⟨kept _ belowHeld, kept _ environmentHeld, kept _ codeHeld, by simp⟩, made⟩
  | halt => exact ⟨⟨stackHeld, environmentHeld, controlHeld, by simp⟩, dumpHeld⟩
  | «return» | resume => cases quiet

theorem «return» (lasting : Lasting good) (keeps : Keeps good pending)
    {value stack environment control dump : Value} (valueHeld : good store value)
    (saved : ∀ item ∈ [stack, environment, control], good store item)
    (dumpHeld : pending store dump) :
    let after := (Effect.return value stack environment control dump).perform registers store
    (∀ item ∈ after.1.current, good after.2 item) ∧ pending after.2 after.1.dump := by
  simp only [Registers.current, List.forall_mem_cons] at saved ⊢
  obtain ⟨stackHeld, environmentHeld, controlHeld, _⟩ := saved
  obtain ⟨made, kept⟩ := lasting.cons valueHeld stackHeld
  exact ⟨⟨made, kept _ environmentHeld, kept _ controlHeld, by simp⟩,
    keeps.cons valueHeld stackHeld dumpHeld⟩

theorem current_resume {holds : Value → Prop} {control dump : Value}
    (held : ∀ value ∈ registers.current, holds value) (controlHeld : holds control) :
    ∀ value ∈ ((Effect.resume control dump).perform registers store).1.current, holds value := by
  simp only [Registers.current, List.forall_mem_cons] at held ⊢
  exact ⟨held.1, held.2.1, controlHeld, by simp⟩

/-- An effect of values that have the property leads to registers that have it. -/
theorem perform (lasting : Lasting good) (held : ∀ value ∈ registers.values, good store value)
    (given : ∀ value ∈ effect.values, good store value)
    (taken : ∀ value ∈ effect.taken, good store value) :
    ∀ value ∈ (effect.perform registers store).1.values,
      good (effect.perform registers store).2 value := by
  rw [Registers.forall_mem_values] at held ⊢
  cases effect with
  | «return» value stack environment control dump =>
      simp only [Effect.values, Effect.taken, List.forall_mem_cons] at given taken
      obtain ⟨stackTaken, environmentTaken, controlTaken, dumpTaken, _⟩ := taken
      refine lasting.return lasting.keeps given.1 ?_ dumpTaken
      simp only [List.forall_mem_cons]
      exact ⟨stackTaken, environmentTaken, controlTaken, by simp⟩
  | resume control dump =>
      simp only [Effect.taken, List.forall_mem_cons] at taken
      exact ⟨current_resume held.1 taken.1, taken.2.1⟩
  | push | pushPair | call | callRecursive | extend | branch | halt =>
      exact lasting.put lasting.keeps held.1 held.2 given rfl

theorem given (lasting : Lasting good)
    (held : ∀ value ∈ before.registers.current, good before.store value) {opcode : Opcode}
    {rest : Value} (executes : before.Executes opcode rest effect) :
    ∀ value ∈ effect.values, good before.store value := by
  simp only [Registers.current, List.forall_mem_cons] at held
  obtain ⟨stackHeld, environmentHeld, controlHeld, _⟩ := held
  have region := lasting.region controlHeld
  obtain ⟨_, code, _⟩ := Instruction.decode_eq_ok_iff.mp executes.decoded
  have restHeld := (region.components _ _ controlHeld code).2
  exact region.values_of_performs stackHeld environmentHeld restHeld executes.performs

theorem operated (lasting : Lasting good)
    (held : ∀ value ∈ before.registers.values, good before.store value) {opcode : Opcode}
    {rest : Value} (executes : before.Executes opcode rest effect) :
    ∀ value ∈ effect.values ++ effect.taken, good before.store value := by
  obtain ⟨current, dump⟩ := Registers.forall_mem_values.mp held
  rw [List.forall_mem_append]
  exact ⟨lasting.given current executes,
    (lasting.region dump).taken_of_performs dump executes.performs⟩

theorem next (lasting : Lasting good)
    (held : ∀ value ∈ before.registers.values, good before.store value) :
    ∀ value ∈ before.next.registers.values, good before.next.store value := by
  rcases before.step_cases with ⟨_, _, _, _, _, unchanged⟩ | ⟨_, opcode, rest, effect, executes⟩
  · rw [unchanged]
    exact held
  · have operated := lasting.operated held executes
    rw [List.forall_mem_append] at operated
    rw [executes.registers, executes.store]
    exact lasting.perform held operated.1 operated.2

theorem after (lasting : Lasting good)
    (held : ∀ value ∈ before.registers.values, good before.store value) (calls : Nat) :
    ∀ value ∈ (before.after calls).registers.values, good (before.after calls).store value := by
  induction calls with
  | zero => exact held
  | succ calls ih => exact lasting.next ih

end Lasting

end SecdMachine
