import Mathlib.Data.Int.ModEq
import SecdMachine.Proofs.Contracts

/-!
Instructions that take the two values on top of the stack and leave one. Arithmetic is that of
64-bit two's-complement numbers: sums, differences and products wrap around, quotients go toward
zero, and only a division by zero is refused.
-/

namespace SecdMachine

namespace Configuration

structure Operates (configuration : Configuration) (opcode : Opcode) (second top : Value) : Prop where
  running : configuration.machine.halted = false
  decoded : ∃ rest, Instruction.decode configuration.store configuration.registers.control =
    .ok (opcode, rest)
  traced : (configuration.machine.traced configuration.store opcode).1 = none
  operands : ∃ stack, configuration.store.Stacked stack [top, second] configuration.registers.stack

structure Gives (configuration : Configuration) (value : Value) : Prop where
  succeeded : configuration.error? = none
  counted : configuration.next.machine.steps = configuration.machine.steps + 1
  running : configuration.next.machine.halted = false
  registers : configuration.next.registers = { configuration.registers with
    stack := configuration.next.registers.stack
    control := configuration.store.second configuration.registers.control }
  stack : configuration.next.store.cell? configuration.next.registers.stack = some
    ⟨value, configuration.store.second (configuration.store.second configuration.registers.stack)⟩
  store : configuration.store.Extends configuration.next.store

structure Refuses (configuration : Configuration) (opcode : Opcode) (cause : Cause) : Prop where
  reported : configuration.error? = some (configuration.machine.faultOf (some opcode) cause)
  unchanged : ∃ trace, (configuration.machine.trace = none → trace = none) ∧
    configuration.next = ⟨configuration.machine.withTrace trace, configuration.store⟩

variable {configuration : Configuration} {opcode : Opcode} {second top value : Value}

theorem Operates.step_eq (operates : configuration.Operates opcode second top) :
    ∃ rest below stack trace, (configuration.machine.trace = none → trace = none) ∧
      configuration.store.second configuration.registers.control = rest ∧
      configuration.store.cell? configuration.registers.stack = some ⟨top, below⟩ ∧
      configuration.store.cell? below = some ⟨second, stack⟩ ∧
      configuration.machine.step configuration.store =
        match configuration.machine.effectOf configuration.store opcode rest with
        | .error cause => (some (configuration.machine.faultOf (some opcode) cause),
            configuration.machine.withTrace trace, configuration.store)
        | .ok effect =>
            (none, (configuration.machine.withTrace trace).commit configuration.store effect) := by
  obtain ⟨running, ⟨rest, decoded⟩, accepted, stack, stacked⟩ := operates
  obtain ⟨below, found, stacked⟩ := stacked.pop
  obtain ⟨_, next, stacked⟩ := stacked.pop
  cases stacked
  obtain ⟨failure, trace, traced, silent⟩ :=
    traced_eq configuration.machine configuration.store opcode
  rw [traced] at accepted
  obtain rfl : failure = none := accepted
  obtain ⟨number, code, _⟩ := Instruction.decode_eq_ok_iff.mp decoded
  exact ⟨rest, below, stack, trace, silent, Store.second_of_cell? code, found, next,
    step_of_traced running decoded traced⟩

theorem Operates.gives (operates : configuration.Operates opcode second top)
    (performs : ∀ {rest below stack},
      configuration.store.cell? configuration.registers.stack = some ⟨top, below⟩ →
      configuration.store.cell? below = some ⟨second, stack⟩ →
      Instruction.Performs configuration.store configuration.registers opcode rest
        (.push value stack rest)) : configuration.Gives value := by
  obtain ⟨rest, below, stack, trace, _, code, found, next, stepped⟩ := operates.step_eq
  have performed := @performs rest below stack found next
  have worked : configuration.machine.effectOf configuration.store opcode rest =
      .ok (.push value stack rest) := (if_pos performed.hasDepth).trans performed.effect_eq
  rw [worked] at stepped
  have moved : configuration.next =
      ⟨((configuration.machine.withTrace trace).commit configuration.store
          (.push value stack rest)).1, (configuration.store.cons value stack).2⟩ := by
    rw [Configuration.next, stepped]
    rfl
  have left : configuration.store.second (configuration.store.second configuration.registers.stack) =
      stack := by rw [Store.second_of_cell? found, Store.second_of_cell? next]
  refine ⟨by rw [error?, stepped], ?_, ?_, ?_, ?_, ?_⟩
  · rw [moved]
    rfl
  · rw [moved]
    rfl
  · rw [moved, code]
    rfl
  · rw [moved, left]
    exact Store.cell?_cons_self
  · rw [moved]
    exact configuration.store.extends_cons value stack

theorem Operates.refuses {cause : Cause} (operates : configuration.Operates opcode second top)
    (deep : opcode.stackNeed = 2)
    (failed : ∀ {rest below stack},
      configuration.store.cell? configuration.registers.stack = some ⟨top, below⟩ →
      configuration.store.cell? below = some ⟨second, stack⟩ →
      Instruction.effect configuration.store configuration.registers opcode rest = .error cause) :
    configuration.Refuses opcode cause := by
  obtain ⟨rest, below, stack, trace, silent, code, found, next, stepped⟩ := operates.step_eq
  have enough : Instruction.hasDepth configuration.store opcode.stackNeed
      configuration.registers.stack = true := by
    simp [deep, Instruction.hasDepth, found, next]
  have worked : configuration.machine.effectOf configuration.store opcode rest = .error cause :=
    (if_pos enough).trans (failed found next)
  rw [worked] at stepped
  exact ⟨by rw [error?, stepped], trace, silent, by rw [Configuration.next, stepped]⟩

end Configuration

namespace Opcode

def Answers (opcode : Opcode) (second top : Int64) (value : Value) : Prop :=
  ∀ configuration : Configuration,
    configuration.Operates opcode (.integer second) (.integer top) → configuration.Gives value

def Rejects (opcode : Opcode) (second top : Int64) (cause : Cause) : Prop :=
  ∀ configuration : Configuration,
    configuration.Operates opcode (.integer second) (.integer top) →
      configuration.Refuses opcode cause

variable {opcode : Opcode} {second top : Int64}

theorem answers_of_arithmetic {value : Value} (kind : opcode.isArithmetic = true)
    (computed : Instruction.arithmetic opcode second top = .ok value) :
    opcode.Answers second top value := by
  intro configuration operates
  exact operates.gives fun found next => .arithmetic kind found next computed

theorem rejects_of_arithmetic {cause : Cause} (kind : opcode.isArithmetic = true)
    (failed : Instruction.arithmetic opcode second top = .error cause) :
    opcode.Rejects second top cause := by
  intro configuration operates
  have deep : opcode.stackNeed = 2 := by cases opcode <;> first | rfl | cases kind
  refine operates.refuses deep fun found next => ?_
  have taken := Instruction.popIntegers_eq_ok.mpr ⟨_, found, next⟩
  cases opcode <;> simp [isArithmetic] at kind <;>
    simp [Instruction.effect, taken, failed, bind, Except.bind]

end Opcode

/-- The number of the 64-bit range that differs from an exact result by a multiple of 2 ^ 64. -/
structure Wraps (number : Int64) (exact : Int) : Prop where
  lower : -2 ^ 63 ≤ number.toInt
  upper : number.toInt < 2 ^ 63
  congruent : number.toInt ≡ exact [ZMOD 2 ^ 64]

theorem wraps_of_bmod {number : Int64} {exact : Int}
    (same : number.toInt = exact.bmod (2 ^ 64)) : Wraps number exact := by
  refine ⟨Int64.le_toInt number, Int64.toInt_lt number, ?_⟩
  rw [same]
  exact Int.bmod_emod

/-- Quotient and remainder of a division toward zero. The one quotient that has no place in the
64-bit range is its lower end without the sign. -/
structure Divides (dividend divisor quotient remainder : Int64) : Prop where
  congruent : quotient.toInt * divisor.toInt + remainder.toInt ≡ dividend.toInt [ZMOD 2 ^ 64]
  smaller : remainder.toInt.natAbs < divisor.toInt.natAbs
  sign : remainder.toInt = 0 ∨ remainder.toInt.sign = dividend.toInt.sign
  exact : quotient.toInt * divisor.toInt + remainder.toInt = dividend.toInt ↔
    ¬(dividend.toInt = -2 ^ 63 ∧ divisor.toInt = -1)
  overflow : dividend.toInt = -2 ^ 63 → divisor.toInt = -1 →
    quotient.toInt = -2 ^ 63 ∧ remainder.toInt = 0

theorem sign_tmod_cases (dividend divisor : Int) :
    dividend.tmod divisor = 0 ∨ (dividend.tmod divisor).sign = dividend.sign := by
  rw [Int.sign_tmod]
  by_cases exactly : divisor ∣ dividend
  · exact Or.inl (Int.tmod_eq_zero_of_dvd exactly)
  · exact Or.inr (if_neg exactly)

theorem divides_of_ne_zero {dividend divisor : Int64} (nonzero : divisor.toInt ≠ 0) :
    Divides dividend divisor (dividend / divisor) (dividend % divisor) := by
  have remainder := Int64.toInt_mod dividend divisor
  have smaller : (dividend % divisor).toInt.natAbs < divisor.toInt.natAbs := by
    rw [remainder, Int.natAbs_tmod]
    exact Nat.mod_lt _ (Int.natAbs_pos.mpr nonzero)
  have sign := sign_tmod_cases dividend.toInt divisor.toInt
  rw [← remainder] at sign
  by_cases extreme : dividend.toInt = -2 ^ 63 ∧ divisor.toInt = -1
  · obtain ⟨least, negated⟩ := extreme
    have quotientEq : (dividend / divisor).toInt = -2 ^ 63 := by
      rw [Int64.toInt_div, least, negated]
      decide
    have remainderEq : (dividend % divisor).toInt = 0 := by
      rw [remainder, least, negated]
      decide
    refine ⟨?_, smaller, sign, ?_, fun _ _ => ⟨quotientEq, remainderEq⟩⟩
    · rw [quotientEq, remainderEq, least, negated]
      decide
    · rw [quotientEq, remainderEq, least, negated]
      decide
  · have quotient : (dividend / divisor).toInt = dividend.toInt.tdiv divisor.toInt := by
      by_cases least : dividend = Int64.minValue
      · refine Int64.toInt_div_of_ne_right dividend divisor fun negated => extreme ?_
        rw [least, negated]
        decide
      · exact Int64.toInt_div_of_ne_left dividend divisor least
    have whole : (dividend / divisor).toInt * divisor.toInt + (dividend % divisor).toInt =
        dividend.toInt := by
      rw [quotient, remainder]
      exact Int.tdiv_mul_add_tmod _ _
    exact ⟨by rw [whole], smaller, sign, iff_of_true whole extreme,
      fun least negated => absurd ⟨least, negated⟩ extreme⟩

/-- Wherever the two integers stand on the stack, sums, differences and products are pushed as the
64-bit numbers they wrap around to; a division by zero is refused, and any other pushes the quotient
or the remainder toward zero; and the comparison pushes the truth value of its question. -/
theorem arithmetic_is_exact (second top : Int64) :
    (∃ sum, Opcode.add.Answers second top (.integer sum) ∧
      Wraps sum (second.toInt + top.toInt)) ∧
    (∃ difference, Opcode.sub.Answers second top (.integer difference) ∧
      Wraps difference (second.toInt - top.toInt)) ∧
    (∃ product, Opcode.mul.Answers second top (.integer product) ∧
      Wraps product (second.toInt * top.toInt)) ∧
    (top.toInt = 0 → Opcode.div.Rejects second top (.divisionByZero second) ∧
      Opcode.rem.Rejects second top (.remainderByZero second) ∧
      (Cause.divisionByZero second).kind = .arithmetic ∧
      (Cause.remainderByZero second).kind = .arithmetic) ∧
    (top.toInt ≠ 0 → ∃ quotient remainder, Opcode.div.Answers second top (.integer quotient) ∧
      Opcode.rem.Answers second top (.integer remainder) ∧
      Divides second top quotient remainder) ∧
    Opcode.leq.Answers second top (.symbol (if second.toInt ≤ top.toInt then "t" else "f")) := by
  refine ⟨⟨_, Opcode.answers_of_arithmetic rfl rfl, wraps_of_bmod (Int64.toInt_add _ _)⟩,
    ⟨_, Opcode.answers_of_arithmetic rfl rfl, wraps_of_bmod (Int64.toInt_sub _ _)⟩,
    ⟨_, Opcode.answers_of_arithmetic rfl rfl, wraps_of_bmod (Int64.toInt_mul _ _)⟩, ?_, ?_, ?_⟩
  · intro zero
    have none : top = 0 := Int64.toInt_inj.mp zero
    exact ⟨Opcode.rejects_of_arithmetic rfl (if_pos none),
      Opcode.rejects_of_arithmetic rfl (if_pos none), rfl, rfl⟩
  · intro nonzero
    have some : top ≠ 0 := fun none => nonzero (by rw [none]; rfl)
    exact ⟨_, _, Opcode.answers_of_arithmetic rfl (if_neg some),
      Opcode.answers_of_arithmetic rfl (if_neg some), divides_of_ne_zero nonzero⟩
  · apply Opcode.answers_of_arithmetic rfl
    simp only [Instruction.arithmetic, Value.ofBool, decide_eq_true_eq, Int64.le_iff_toInt_le]
    split <;> rfl

def division (second top : Int64) : Configuration where
  machine := { registers := ⟨.pair 1, .nil, .pair 2, .nil⟩ }
  store := ⟨#[⟨.integer second, .nil⟩, ⟨.integer top, .pair 0⟩, ⟨.integer 18, .nil⟩]⟩

theorem operates_division (second top : Int64) :
    (division second top).Operates .div (.integer second) (.integer top) :=
  ⟨rfl, ⟨.nil, rfl⟩, rfl, .nil, .push rfl (.push rfl .base)⟩

theorem least_divided_by_minusOne_wraps :
    (division Int64.minValue (-1)).Gives (.integer Int64.minValue) ∧
    (division 7 0).Refuses .div (.divisionByZero 7) := by
  obtain ⟨_, _, _, _, divided, _⟩ := arithmetic_is_exact Int64.minValue (-1)
  obtain ⟨_, _, _, rejected, _⟩ := arithmetic_is_exact 7 0
  obtain ⟨quotient, remainder, answers, _, divides⟩ := divided (by decide)
  have wrapped : quotient = Int64.minValue :=
    Int64.toInt_inj.mp (divides.overflow (by decide) (by decide)).1
  rw [wrapped] at answers
  exact ⟨answers _ (operates_division _ _), (rejected rfl).1 _ (operates_division _ _)⟩

end SecdMachine
