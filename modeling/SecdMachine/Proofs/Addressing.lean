import Mathlib.Logic.Function.Iterate
import SecdMachine.Proofs.Letrec

/-!
Addresses. LD passes over frames and then over places in one of them, and stops early at what is no
pair. Still it finds what plain indexing gives, where both components of what is no pair are NIL: in
lists of values the element that the numbers say, and NIL past their ends.
-/

namespace SecdMachine

namespace Store

variable {store : Store} {value : Value} {cells : List Address} {elements : List Value}

/-- The first component after a number of second ones. Negative numbers count as zero. -/
def element (store : Store) (value : Value) (index : Int) : Value :=
  store.first (store.second^[(max index 0).toNat] value)

def ListsAt (store : Store) (value : Value) (frames : List (List Value)) : Prop :=
  ∃ cells heads, store.ListAt value cells heads ∧
    List.Forall₂ (fun head elements => ∃ cells, store.ListAt head cells elements) heads frames

theorem cell?_iterate_second (outside : store.cell? value = none) (count : Nat) :
    store.cell? (store.second^[count] value) = none := by
  induction count generalizing value with
  | zero => exact outside
  | succ count ih =>
      have nil : store.second value = .nil := by simp only [Store.second, outside]
      rw [Function.iterate_succ_apply, nil]
      exact ih rfl

/-- Where a walk has stopped early, first components are NIL from there on. -/
theorem first_walk (store : Store) (count : Nat) (value : Value) :
    store.first (Instruction.walk store count value) =
      store.first (store.second^[count] value) := by
  induction count generalizing value with
  | zero => rfl
  | succ count ih =>
      cases found : store.cell? value with
      | none =>
          have beyond := cell?_iterate_second found (count + 1)
          simp only [Instruction.walk, Store.first, found, beyond]
      | some cell =>
          rw [Function.iterate_succ_apply, second_of_cell? found, ← ih]
          simp only [Instruction.walk, found]

theorem element_eq_walk (store : Store) (value : Value) (index : Int) :
    store.element value index = store.first (Instruction.walk store index.toNat value) := by
  have same : (max index 0).toNat = index.toNat := by omega
  rw [element, same, first_walk]

theorem element_nil (store : Store) (index : Int) : store.element .nil index = .nil := by
  have outside : store.cell? (store.second^[(max index 0).toNat] .nil) = none :=
    cell?_iterate_second rfl _
  simp only [element, Store.first, outside]

theorem ListAt.first_walk_of_length_le (list : store.ListAt value cells elements) {position : Nat}
    (past : elements.length ≤ position) :
    store.first (Instruction.walk store position value) = .nil := by
  induction list generalizing position with
  | nil => cases position <;> rfl
  | cons present _ ih =>
      cases position with
      | zero => cases past
      | succ position =>
          simp only [Instruction.walk, present]
          exact ih (Nat.le_of_succ_le_succ past)

theorem ListAt.element_eq (list : store.ListAt value cells elements) (index : Int) :
    store.element value index = elements[index.toNat]?.getD .nil := by
  rw [element_eq_walk]
  cases found : elements[index.toNat]? with
  | some element => exact list.first_walk found
  | none => exact list.first_walk_of_length_le (List.getElem?_eq_none_iff.mp found)

theorem ListsAt.element_eq {frames : List (List Value)} (lists : store.ListsAt value frames)
    (frame position : Int) :
    store.element (store.element value frame) position =
      (frames[frame.toNat]?.bind fun elements => elements[position.toNat]?).getD .nil := by
  obtain ⟨cells, heads, list, held⟩ := lists
  rw [list.element_eq]
  obtain ⟨same, each⟩ := List.forall₂_iff_get.mp held
  by_cases inside : frame.toNat < heads.length
  · have also : frame.toNat < frames.length := same ▸ inside
    obtain ⟨inner, head⟩ := each frame.toNat inside also
    rw [List.getElem?_eq_getElem inside, List.getElem?_eq_getElem also]
    exact head.element_eq position
  · have also : frames.length ≤ frame.toNat := same ▸ Nat.le_of_not_lt inside
    rw [List.getElem?_eq_none (Nat.le_of_not_lt inside), List.getElem?_eq_none also]
    exact store.element_nil position

end Store

theorem Instruction.locate_eq {store : Store} {environment address : Value}
    {frame position : Int64}
    (numbers : store.cell? address = some ⟨.integer frame, .integer position⟩) :
    locate store environment address =
      .ok (store.element (store.element environment frame.toInt) position.toInt) := by
  simp only [locate, numbers, Store.element_eq_walk]

namespace Configuration

structure Addresses (configuration : Configuration) (frame position : Int64) : Prop where
  running : configuration.machine.halted = false
  decoded : ∃ rest address after,
    Instruction.decode configuration.store configuration.registers.control = .ok (.ld, rest) ∧
    configuration.store.cell? rest = some ⟨address, after⟩ ∧
    configuration.store.cell? address = some ⟨.integer frame, .integer position⟩

structure Loaded (configuration : Configuration) (value : Value) : Prop where
  succeeded : configuration.error? = none
  counted : configuration.next.machine.steps = configuration.machine.steps + 1
  running : configuration.next.machine.halted = false
  registers : configuration.next.registers = { configuration.registers with
    stack := configuration.next.registers.stack
    control := configuration.store.second
      (configuration.store.second configuration.registers.control) }
  stack : configuration.next.store.cell? configuration.next.registers.stack =
    some ⟨value, configuration.registers.stack⟩
  store : configuration.store.Extends configuration.next.store

variable {configuration : Configuration} {frame position : Int64}

theorem Addresses.refused_of_stops (addresses : configuration.Addresses frame position)
    {error : MachineError} (stops : configuration.Stops error) :
    ∃ problem, error = @MachineError.traceRefused problem ∧
      (configuration.machine.traced configuration.store .ld).1 = some problem := by
  obtain ⟨running, rest, address, after, decoded, operand, numbers⟩ := addresses
  cases stops with
  | halted stopped =>
      rw [running] at stopped
      cases stopped
  | undecoded _ failed =>
      rw [decoded] at failed
      cases failed
  | untraced _ also refused =>
      rw [decoded] at also
      cases also
      exact ⟨_, rfl, refused⟩
  | unperformed _ also failed =>
      rw [decoded] at also
      cases also
      have performs : Instruction.Performs configuration.store configuration.machine.registers .ld
          rest (.push _ configuration.machine.registers.stack after) :=
        .ld operand (Instruction.locate_eq numbers)
      rw [Machine.effectOf, if_pos performs.hasDepth, performs.effect_eq] at failed
      cases failed

theorem Addresses.loaded (addresses : configuration.Addresses frame position)
    (succeeded : configuration.error? = none) {opcode : Opcode} {rest : Value} {effect : Effect}
    (executes : configuration.Executes opcode rest effect) :
    configuration.Loaded (configuration.store.element (configuration.store.element
      configuration.registers.environment frame.toInt) position.toInt) := by
  obtain ⟨_, _, address, after, decoded, operand, numbers⟩ := addresses
  rw [executes.decoded] at decoded
  cases decoded
  obtain ⟨number, code, _⟩ := Instruction.decode_eq_ok_iff.mp executes.decoded
  have registers := executes.registers
  have store := executes.store
  have halted := executes.halted
  cases executes.performs with
  | arithmetic kind => cases kind
  | ld also located =>
      rw [operand] at also
      cases also
      rw [Instruction.locate_eq numbers] at located
      cases located
      refine ⟨succeeded, executes.steps, halted, ?_, ?_, ?_⟩
      · rw [registers, Store.second_of_cell? code, Store.second_of_cell? operand]
        rfl
      · rw [registers, store]
        exact Store.cell?_cons_self
      · rw [store]
        exact configuration.store.extends_cons _ _

/-- Whatever the environment is, and whatever the two numbers are, LD does not fault, and pushes
what plain indexing finds. In a list of frames this is an element of one of them, or NIL if there is
no such frame or no such place in it. -/
theorem addresses_are_plain_indices (addresses : configuration.Addresses frame position) :
    let environment := configuration.registers.environment
    let found := configuration.store.element
      (configuration.store.element environment frame.toInt) position.toInt
    (∀ details, configuration.error? ≠ some (.fault details)) ∧
    ((configuration.machine.traced configuration.store .ld).1 = none →
      configuration.Loaded found) ∧
    ∀ frames, configuration.store.ListsAt environment frames →
      found = (frames[frame.toInt.toNat]?.bind fun elements =>
        elements[position.toInt.toNat]?).getD .nil := by
  intro environment found
  refine ⟨?_, ?_, fun frames lists => lists.element_eq _ _⟩
  · intro details faulted
    rcases configuration.step_cases with ⟨error, _, reported, stops, _⟩ | ⟨succeeded, _⟩
    · obtain ⟨_, same, _⟩ := addresses.refused_of_stops stops
      rw [same, faulted] at reported
      cases reported
    · rw [succeeded] at faulted
      cases faulted
  · intro willing
    rcases configuration.step_cases with ⟨error, _, _, stops, _⟩ | ⟨succeeded, _, _, _, executes⟩
    · obtain ⟨_, _, refused⟩ := addresses.refused_of_stops stops
      rw [refused] at willing
      cases willing
    · exact addresses.loaded succeeded executes

def lookup (frame position : Int64) (cells : List Cell) : Configuration where
  machine := { registers := ⟨.nil, .pair 3, .pair 2, .nil⟩ }
  store := ⟨(⟨.integer frame, .integer position⟩ :: ⟨.pair 0, .nil⟩ :: ⟨.integer 1, .pair 1⟩ ::
    cells).toArray⟩

def twoFrames : List Cell :=
  [⟨.pair 5, .pair 4⟩, ⟨.pair 7, .nil⟩, ⟨.integer 1, .pair 6⟩, ⟨.integer 2, .nil⟩,
    ⟨.integer 3, .nil⟩]

def endlessFrames : List Cell :=
  [⟨.pair 4, .pair 3⟩, ⟨.integer 1, .integer 2⟩]

theorem addresses_lookup (frame position : Int64) (cells : List Cell) :
    (lookup frame position cells).Addresses frame position :=
  ⟨rfl, .pair 1, .pair 0, .nil, by
    simp [lookup, Instruction.decode, Store.cell?, registers, Opcode.ofNumber?, Opcode.all]⟩

theorem twoFrames_and_endlessFrames_are_indexed :
    (lookup 0 1 twoFrames).Loaded (.integer 2) ∧ (lookup 0 2 twoFrames).Loaded .nil ∧
    (lookup 5 (-7) endlessFrames).Loaded (.integer 1) := by
  have lists : ∀ position, (lookup 0 position twoFrames).store.ListsAt (.pair 3)
      [[.integer 1, .integer 2], [.integer 3]] := by
    intro position
    refine ⟨[3, 4], [.pair 5, .pair 7], .cons rfl (.cons rfl .nil), .cons ⟨[5, 6], ?_⟩
      (.cons ⟨[7], ?_⟩ .nil)⟩
    · exact .cons rfl (.cons rfl .nil)
    · exact .cons rfl .nil
  obtain ⟨_, inside, present⟩ := addresses_are_plain_indices (addresses_lookup 0 1 twoFrames)
  obtain ⟨_, past, absent⟩ := addresses_are_plain_indices (addresses_lookup 0 2 twoFrames)
  obtain ⟨_, endless, _⟩ := addresses_are_plain_indices (addresses_lookup 5 (-7) endlessFrames)
  rw [present _ (lists 1)] at inside
  rw [absent _ (lists 2)] at past
  exact ⟨inside rfl, past rfl, endless rfl⟩

end Configuration

end SecdMachine
