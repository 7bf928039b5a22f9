import SecdMachine.Opcode
import SecdMachine.Proofs.Unfolding

/-!
The language of the assembler, on trees. Code is NIL, or an instruction with its operands and then
code. Whether a cell is an instruction, an operand or code within one depends on all that stands
before it; `isCodeAfter` and `numericAfter` go along the cells and keep count of the operands to
come.
-/

namespace SecdMachine

namespace Opcode

theorem number_of_getElem? {index : Nat} {opcode : Opcode} (found : all[index]? = some opcode) :
    opcode.number = index + 1 := by
  have numbered : ∀ index < 21, all[index]?.map number = some (index + 1) := by decide
  have bound : index < 21 := (List.getElem?_eq_some_iff.mp found).1
  simpa [found] using numbered index bound

theorem ofNumber?_eq_some_iff {number : Int} {opcode : Opcode} :
    ofNumber? number = some opcode ↔ number = opcode.number := by
  constructor
  · intro found
    rw [ofNumber?] at found
    split at found
    · cases found
    · have place := number_of_getElem? found
      omega
  · rintro rfl
    cases opcode <;> decide

theorem ofName?_eq_some_iff {name : String} {opcode : Opcode} :
    ofName? name = some opcode ↔ Text.capitals name = opcode.name := by
  constructor
  · intro found
    simpa [eq_comm] using List.find?_some found
  · intro capitals
    rw [ofName?, capitals]
    cases opcode <;> decide

end Opcode

namespace Tree

def Names : Tree → Opcode → Prop
  | integer number, opcode => number.toInt = opcode.number
  | symbol name, opcode => Text.capitals name = opcode.name
  | _, _ => False

def Numbers : Tree → Opcode → Prop
  | integer number, opcode => number.toInt = opcode.number
  | _, _ => False

/-- Code whose instructions are named in a certain way. An instruction has as many operands as its
opcode asks for, and those of some opcodes are code. -/
inductive IsCode (named : Tree → Opcode → Prop) : Tree → Prop
  | nil : IsCode named nil
  | instruction {head rest : Tree} {opcode : Opcode} {operands : List Tree}
      (name : named head opcode) (count : operands.length = opcode.operandCount)
      (nested : opcode.operandKind = .code → ∀ operand ∈ operands, IsCode named operand)
      (next : IsCode named rest) : IsCode named (.pair head (operands.foldr pair rest))

def opcode? : Tree → Option Opcode
  | integer number => Opcode.ofNumber? number.toInt
  | symbol name => Opcode.ofName? name
  | _ => none

def isCodeAfter : OperandKind → Nat → Tree → Bool
  | kind, count + 1, pair operand rest =>
      (kind = .literal || isCodeAfter .code 0 operand) && isCodeAfter kind count rest
  | _, 0, pair head rest =>
      match head.opcode? with
      | some opcode => isCodeAfter opcode.operandKind opcode.operandCount rest
      | none => false
  | _, 0, tree => tree = nil
  | _, _, _ => false

def numericAfter : OperandKind → Nat → Tree → Tree
  | .literal, count + 1, pair operand rest => pair operand (numericAfter .literal count rest)
  | .code, count + 1, pair operand rest =>
      pair (numericAfter .code 0 operand) (numericAfter .code count rest)
  | _, 0, pair head rest =>
      match head.opcode? with
      | some opcode =>
          pair (integer (Int64.ofNat opcode.number))
            (numericAfter opcode.operandKind opcode.operandCount rest)
      | none => pair head rest
  | _, _, tree => tree

def numeric (tree : Tree) : Tree :=
  numericAfter .code 0 tree

variable {tree head rest : Tree} {kind : OperandKind} {opcode : Opcode} {operands : List Tree}
  {count : Nat} {named : Tree → Opcode → Prop}

theorem opcode?_eq_some_iff : tree.opcode? = some opcode ↔ tree.Names opcode := by
  cases tree with
  | integer number => exact Opcode.ofNumber?_eq_some_iff
  | symbol name => exact Opcode.ofName?_eq_some_iff
  | empty | pair => simp [opcode?, Names]

theorem Numbers.names (numbers : tree.Numbers opcode) : tree.Names opcode := by
  cases tree with
  | integer number => exact numbers
  | empty | symbol | pair => exact numbers.elim

theorem Numbers.eq_integer (numbers : tree.Numbers opcode) :
    tree = integer (Int64.ofNat opcode.number) := by
  cases tree with
  | integer number =>
      have same : number.toInt = (Int64.ofNat opcode.number).toInt := by
        rw [show number.toInt = opcode.number from numbers]
        cases opcode <;> rfl
      rw [Int64.toInt_inj.mp same]
  | empty | symbol | pair => exact numbers.elim

theorem numbers_integer (opcode : Opcode) :
    (integer (Int64.ofNat opcode.number)).Numbers opcode := by
  cases opcode <;> rfl

theorem IsCode.names (code : tree.IsCode Numbers) : tree.IsCode Names := by
  induction code with
  | nil => exact .nil
  | instruction name count _ _ nestedIh nextIh =>
      exact .instruction name.names count nestedIh nextIh

theorem isCodeAfter_named (kind : OperandKind) (rest : Tree) (name : head.Names opcode) :
    isCodeAfter kind 0 (pair head rest) =
      isCodeAfter opcode.operandKind opcode.operandCount rest := by
  simp only [isCodeAfter, opcode?_eq_some_iff.mpr name]

theorem numericAfter_named (kind : OperandKind) (rest : Tree) (name : head.Names opcode) :
    numericAfter kind 0 (pair head rest) =
      pair (integer (Int64.ofNat opcode.number))
        (numericAfter opcode.operandKind opcode.operandCount rest) := by
  cases kind <;> simp only [numericAfter, opcode?_eq_some_iff.mpr name]

theorem isCodeAfter_zero (kind : OperandKind) (tree : Tree) :
    isCodeAfter kind 0 tree = isCodeAfter .code 0 tree := by
  cases tree <;> cases kind <;> rfl

theorem numericAfter_zero (kind : OperandKind) (tree : Tree) :
    numericAfter kind 0 tree = tree.numeric := by
  cases tree <;> cases kind <;> rfl

theorem isCodeAfter_operands (kind : OperandKind) (operands : List Tree) (rest : Tree) :
    isCodeAfter kind operands.length (operands.foldr pair rest) =
      ((kind = .literal || operands.all (isCodeAfter .code 0)) && isCodeAfter .code 0 rest) := by
  induction operands with
  | nil => simp [isCodeAfter_zero]
  | cons operand operands ih =>
      simp only [List.length_cons, List.foldr_cons, isCodeAfter, ih, List.all_cons]
      cases kind <;> simp [Bool.and_assoc]

theorem numericAfter_operands (kind : OperandKind) (operands : List Tree) (rest : Tree) :
    numericAfter kind operands.length (operands.foldr pair rest) =
      (match kind with
        | .literal => operands
        | .code => operands.map numeric).foldr pair rest.numeric := by
  induction operands with
  | nil => cases kind <;> exact numericAfter_zero _ rest
  | cons operand operands ih =>
      cases kind with
      | literal | code =>
          rw [List.length_cons, List.foldr_cons, numericAfter, ih]
          rfl

theorem numeric_instruction (name : head.Names opcode)
    (count : operands.length = opcode.operandCount) :
    (pair head (operands.foldr pair rest)).numeric =
      pair (integer (Int64.ofNat opcode.number))
        ((match opcode.operandKind with
          | .literal => operands
          | .code => operands.map numeric).foldr pair rest.numeric) := by
  rw [numeric, numericAfter_named _ _ name, ← count, numericAfter_operands]

/-- Going along the cells decides what code is. -/
theorem exists_operands_of_isCodeAfter (accepted : isCodeAfter kind count tree = true) :
    ∃ (operands : List Tree) (rest : Tree), operands.length = count ∧
      tree = operands.foldr pair rest ∧
      (kind = .code → ∀ operand ∈ operands, operand.IsCode Names) ∧ rest.IsCode Names := by
  induction tree generalizing kind count with
  | empty | integer => cases count <;> simp [isCodeAfter, nil] at accepted
  | symbol name =>
      cases count with
      | zero =>
          have same : symbol name = nil := by simpa [isCodeAfter] using accepted
          exact ⟨[], nil, rfl, same, by simp, .nil⟩
      | succ count => simp [isCodeAfter] at accepted
  | pair first second firstIh secondIh =>
      cases count with
      | zero =>
          rw [isCodeAfter] at accepted
          split at accepted
          next opcode named =>
              obtain ⟨operands, rest, count, rfl, nested, next⟩ := secondIh accepted
              refine ⟨[], _, rfl, rfl, by simp, ?_⟩
              exact .instruction (opcode?_eq_some_iff.mp named) count nested next
          next => cases accepted
      | succ count =>
          simp only [isCodeAfter, Bool.and_eq_true, Bool.or_eq_true, decide_eq_true_eq] at accepted
          obtain ⟨operands, rest, length, rfl, nested, next⟩ := secondIh accepted.2
          refine ⟨first :: operands, rest, by simp [length], rfl, fun code => ?_, next⟩
          have inner : isCodeAfter .code 0 first = true := by simpa [code] using accepted.1
          obtain ⟨none, _, empty, rfl, _, firstCode⟩ := firstIh inner
          rw [List.length_eq_zero_iff.mp empty] at *
          exact List.forall_mem_cons.mpr ⟨firstCode, nested code⟩

theorem IsCode.isCodeAfter (code : tree.IsCode Names) : isCodeAfter .code 0 tree = true := by
  induction code with
  | nil => rfl
  | @instruction head rest opcode operands name count _ _ nestedIh nextIh =>
      rw [isCodeAfter_named _ _ name, ← count, isCodeAfter_operands]
      simp only [nextIh, Bool.and_true, Bool.or_eq_true, decide_eq_true_eq, List.all_eq_true]
      cases kind : opcode.operandKind with
      | literal => exact Or.inl rfl
      | code => exact Or.inr (nestedIh kind)

theorem isCode_iff : tree.IsCode Names ↔ isCodeAfter .code 0 tree = true := by
  refine ⟨IsCode.isCodeAfter, fun accepted => ?_⟩
  obtain ⟨operands, rest, none, rfl, _, code⟩ := exists_operands_of_isCodeAfter accepted
  rw [List.length_eq_zero_iff.mp none]
  exact code

instance (tree : Tree) : Decidable (tree.IsCode Names) :=
  decidable_of_iff _ isCode_iff.symm

theorem IsCode.numeric (code : tree.IsCode Names) : tree.numeric.IsCode Numbers := by
  induction code with
  | nil => exact .nil
  | @instruction head rest opcode operands name count _ _ nestedIh nextIh =>
      rw [numeric_instruction name count]
      cases kind : opcode.operandKind with
      | literal =>
          exact .instruction (numbers_integer opcode) count (by simp [kind]) nextIh
      | code =>
          refine .instruction (numbers_integer opcode) (by simpa using count) ?_ nextIh
          intro _ operand member
          obtain ⟨before, inside, rfl⟩ := List.mem_map.mp member
          exact nestedIh kind before inside

theorem IsCode.numeric_eq (code : tree.IsCode Numbers) : tree.numeric = tree := by
  induction code with
  | nil => rfl
  | @instruction head rest opcode operands name count _ _ nestedIh nextIh =>
      rw [numeric_instruction name.names count, nextIh, ← name.eq_integer]
      cases kind : opcode.operandKind with
      | literal => rfl
      | code =>
          have same : operands.map Tree.numeric = operands.map id :=
            List.map_congr_left (nestedIh kind)
          simp only [same, List.map_id]

end Tree

end SecdMachine
