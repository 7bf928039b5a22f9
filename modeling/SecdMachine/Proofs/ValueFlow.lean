import SecdMachine.Proofs.Execution

/-!
Where the values of an effect come from. A region is a set of values that holds all atoms and, with
each pair, its components. An instruction never leaves the region of its stack, its environment and
its code, unless it takes something from the dump.
-/

namespace SecdMachine

structure Store.Region (store : Store) (inside : Value → Prop) : Prop where
  symbol : ∀ name, inside (.symbol name)
  integer : ∀ number, inside (.integer number)
  components : ∀ value cell, inside value → store.cell? value = some cell →
    inside cell.first ∧ inside cell.second

def Effect.values : Effect → List Value
  | push value stack control => [value, stack, control]
  | pushPair first second stack control => [first, second, stack, control]
  | call code frame environment stack control => [code, frame, environment, stack, control]
  | callRecursive closure frame environment stack saved control =>
      [closure, frame, .pair environment, stack, saved, control]
  | .return value _ _ _ _ => [value]
  | extend control => [control]
  | branch code stack control => [code, stack, control]
  | resume _ _ => []
  | halt => []

def Effect.taken : Effect → List Value
  | .return _ stack environment control dump => [stack, environment, control, dump]
  | resume control dump => [control, dump]
  | _ => []

theorem Effect.target_mem_values {effect : Effect} {address : Address}
    (hit : effect.target = some address) : .pair address ∈ effect.values := by
  cases effect with
  | callRecursive closure frame environment stack saved control =>
      cases hit
      simp [values]
  | push | pushPair | call | «return» | extend | branch | resume | halt => simp [target] at hit

namespace Store.Region

variable {store : Store} {inside : Value → Prop} {value : Value}

theorem nil (region : store.Region inside) : inside .nil :=
  region.symbol "NIL"

theorem first (region : store.Region inside) (member : inside value) :
    inside (store.first value) := by
  cases found : store.cell? value with
  | none => simpa [Store.first, found] using region.nil
  | some cell => simpa [Store.first, found] using (region.components value cell member found).1

theorem second (region : store.Region inside) (member : inside value) :
    inside (store.second value) := by
  cases found : store.cell? value with
  | none => simpa [Store.second, found] using region.nil
  | some cell => simpa [Store.second, found] using (region.components value cell member found).2

theorem walk (region : store.Region inside) (member : inside value) (count : Nat) :
    inside (Instruction.walk store count value) := by
  induction count generalizing value with
  | zero => exact member
  | succ count ih =>
      rw [Instruction.walk]
      split
      · rename_i cell found
        exact ih (region.components value cell member found).2
      · exact member

theorem locate (region : store.Region inside) {environment address : Value}
    (member : inside environment)
    (located : Instruction.locate store environment address = .ok value) : inside value := by
  simp only [Instruction.locate] at located
  split at located
  · simp at located
  · split at located
    · cases located
      exact region.first (region.walk (region.first (region.walk member _)) _)
    · simp at located

theorem ofBool (region : store.Region inside) (condition : Bool) :
    inside (.ofBool condition) := by
  cases condition with
  | true => exact region.symbol "t"
  | false => exact region.symbol "f"

theorem arithmetic (region : store.Region inside) {opcode : Opcode} {second top : Int64}
    (computed : Instruction.arithmetic opcode second top = .ok value) : inside value := by
  cases opcode
  case div =>
      simp only [Instruction.arithmetic] at computed
      split at computed
      · simp at computed
      · cases computed
        exact region.integer _
  case rem =>
      simp only [Instruction.arithmetic] at computed
      split at computed
      · simp at computed
      · cases computed
        exact region.integer _
  case add | sub | mul =>
      cases computed
      exact region.integer _
  all_goals
    cases computed
    exact region.ofBool _

theorem callFrame (region : store.Region inside) {entry stack environment control : Value}
    (member : inside entry)
    (frame : Instruction.callFrame store entry = .ok (stack, environment, control)) :
    inside stack ∧ inside environment ∧ inside control := by
  simp only [Instruction.callFrame] at frame
  split at frame
  · simp at frame
  · rename_i top topFound
    have upper := region.components _ _ member topFound
    split at frame
    · simp at frame
    · rename_i middle middleFound
      have center := region.components _ _ upper.2 middleFound
      split at frame
      · simp at frame
      · rename_i bottom bottomFound
        have lower := region.components _ _ center.2 bottomFound
        split at frame
        · cases frame
          exact ⟨upper.1, center.1, lower.1⟩
        · simp at frame

/-- An effect stays in every region that holds the stack, the environment and the code. -/
theorem values_of_performs (region : store.Region inside) {registers : Registers} {opcode : Opcode}
    {rest : Value} {effect : Effect} (stack : inside registers.stack)
    (environment : inside registers.environment) (control : inside rest)
    (performs : Instruction.Performs store registers opcode rest effect) :
    ∀ value ∈ effect.values, inside value := by
  have halves : ∀ {value first second : Value}, inside value →
      store.cell? value = some ⟨first, second⟩ → inside first ∧ inside second :=
    fun member found => region.components _ _ member found
  cases performs with
  | ld operand located =>
      simp [Effect.values, region.locate environment located, stack, (halves control operand).2]
  | ldc operand => simp [Effect.values, halves control operand, stack]
  | ldf operand => simp [Effect.values, halves control operand, stack, environment]
  | ap top next applied =>
      have upper := halves stack top
      have lower := halves upper.2 next
      have closure := region.components _ _ upper.1 applied
      simp [Effect.values, lower, closure, control]
  | rtn top popped frame => simp [Effect.values, halves stack top]
  | dum => simp [Effect.values, control]
  | rap top next applied completed around =>
      have upper := halves stack top
      have lower := halves upper.2 next
      have outer := region.components _ _ environment around
      simp [Effect.values, upper, lower, (halves upper.1 applied).2, outer, control]
  | @sel _ first more second after name below operand other top =>
      have upper := halves control operand
      have lower := halves upper.2 other
      have code : inside (if Instruction.isTrue name then first else second) := by
        split
        · exact upper.1
        · exact lower.1
      simp [Effect.values, code, lower, halves stack top]
  | join popped => simp [Effect.values]
  | car top found | cdr top found =>
      have upper := halves stack top
      simp [Effect.values, upper, region.components _ _ upper.1 found, control]
  | atom top => simp [Effect.values, region.ofBool, halves stack top, control]
  | cons top next =>
      have upper := halves stack top
      simp [Effect.values, upper, halves upper.2 next, control]
  | eq top next =>
      have upper := halves stack top
      simp [Effect.values, region.ofBool, halves upper.2 next, control]
  | arithmetic kind top next computed =>
      have upper := halves stack top
      simp [Effect.values, region.arithmetic computed, halves upper.2 next, control]
  | stop => simp [Effect.values]

theorem taken_of_performs (region : store.Region inside) {registers : Registers} {opcode : Opcode}
    {rest : Value} {effect : Effect} (dump : inside registers.dump)
    (performs : Instruction.Performs store registers opcode rest effect) :
    ∀ value ∈ effect.taken, inside value := by
  cases performs with
  | rtn top popped frame =>
      have halves := region.components _ _ dump popped
      have saved := region.callFrame halves.1 frame
      simp [Effect.taken, saved, halves]
  | join popped => simp [Effect.taken, region.components _ _ dump popped]
  | ld | ldc | ldf | ap | dum | rap | sel | car | cdr | atom | cons | eq | arithmetic | stop =>
      simp [Effect.taken]

end Store.Region

end SecdMachine
