import Mathlib.Logic.Function.Iterate
import SecdMachine.Listing
import SecdMachine.Proofs.Assembly
import SecdMachine.Proofs.Contracts

/-!
How far an instruction reaches. The table of the opcodes says how many operands an instruction has
and how many values it needs; the machine, the assembler and the listing each take operands from the
code on their own, and the machine checks the depth of the stack before it takes values from it. All
of them keep to the table, whatever code and stack look like, improper and endless lists included.
-/

namespace SecdMachine

def Cause.isExcluded : Cause → Bool
  | opcodeUndefined _ => true
  | stackEmpty _ => true
  | _ => false

theorem Cause.isExcluded_eq_false_iff {cause : Cause} :
    cause.isExcluded = false ↔
      (∀ missing, cause ≠ .stackEmpty missing) ∧ cause.kind ≠ .unknownOpcode := by
  constructor
  · intro kept
    constructor
    · rintro missing rfl
      cases kept
    · intro unknown
      cases cause with
      | opcodeUndefined number => cases kept
      | _ => cases unknown
  · rintro ⟨deep, known⟩
    cases cause with
    | opcodeUndefined number => exact absurd rfl known
    | stackEmpty missing => exact absurd rfl (deep missing)
    | _ => rfl

namespace Store

variable {store later : Store} {base stack control code rest : Value}
  {values operands : List Value} {opcode : Opcode}

structure Lays (store : Store) (control : Value) (opcode : Opcode) (operands : List Value)
    (code : Value) : Prop where
  count : operands.length = opcode.operandCount
  cells : store.Stacked code (.integer (Int64.ofNat opcode.number) :: operands) control

def HasCells (store : Store) (count : Nat) (stack : Value) : Prop :=
  ∃ values below, values.length = count ∧ store.Stacked below values stack

theorem Stacked.second_iterate (stacked : store.Stacked base values stack) :
    store.second^[values.length] stack = base := by
  induction stacked with
  | base => rfl
  | push found _ ih => rw [List.length_cons, Function.iterate_succ_apply, second_of_cell? found, ih]

theorem Lays.mono (lays : store.Lays control opcode operands code)
    (extended : store.Extends later) : later.Lays control opcode operands code :=
  ⟨lays.count, lays.cells.mono extended⟩

theorem Lays.second_iterate (lays : store.Lays control opcode operands code) :
    store.second^[1 + opcode.operandCount] control = code := by
  rw [← lays.count, Nat.add_comm]
  exact lays.cells.second_iterate

theorem Lays.opens (lays : store.Lays control opcode operands code) :
    ∃ rest, store.Opens control opcode rest ∧ store.Stacked code operands rest :=
  lays.cells.pop

theorem opens_of_decode (decoded : Instruction.decode store control = .ok (opcode, rest)) :
    store.Opens control opcode rest := by
  obtain ⟨number, found, known⟩ := Instruction.decode_eq_ok_iff.mp decoded
  have same : number = Int64.ofNat opcode.number := by
    apply Int64.toInt_inj.mp
    rw [Opcode.ofNumber?_eq_some_iff.mp known,
      Opcode.ofNumber?_eq_some_iff.mp opcode.ofNumber?_number]
  rw [Opens, ← same]
  exact found

end Store

namespace Instruction

variable {store : Store} {registers : Registers} {opcode : Opcode} {rest : Value}

theorem hasDepth_iff {count : Nat} {stack : Value} :
    hasDepth store count stack = true ↔ store.HasCells count stack := by
  constructor
  · intro deep
    induction count generalizing stack with
    | zero => exact ⟨[], stack, rfl, .base⟩
    | succ count ih =>
        rw [hasDepth] at deep
        split at deep
        · rename_i cell found
          obtain ⟨values, below, length, stacked⟩ := ih deep
          refine ⟨cell.first :: values, below, ?_, .push found stacked⟩
          rw [List.length_cons, length]
        · simp at deep
  · rintro ⟨values, below, rfl, stacked⟩
    induction stacked with
    | base => rfl
    | push found _ ih => simp [hasDepth, found, ih]

def Avoids {α : Type} (action : Except Cause α) : Prop :=
  ∀ cause, action = .error cause → cause.isExcluded = false

section

variable {α β : Type} {action : Except Cause α} {next : α → Except Cause β} {value below : Value}

theorem avoids_ok (result : α) : Avoids (.ok result) := by
  intro cause failed
  cases failed

theorem avoids_error {cause : Cause} (other : cause.isExcluded = false) :
    Avoids (.error cause : Except Cause α) := by
  rintro _ ⟨⟩
  exact other

theorem Avoids.bind (first : Avoids action) (further : ∀ result, Avoids (next result)) :
    Avoids (action >>= next) := by
  intro cause failed
  cases outcome : action with
  | error other =>
      rw [outcome] at failed
      cases failed
      exact first cause outcome
  | ok result =>
      rw [outcome] at failed
      exact further result cause failed

theorem avoids_operand : Avoids (operand store value) := by
  unfold operand
  split
  · exact avoids_ok _
  · exact avoids_error rfl

theorem avoids_popDump : Avoids (popDump store value) := by
  unfold popDump
  split
  · exact avoids_ok _
  · exact avoids_error rfl

theorem avoids_locate {environment address : Value} :
    Avoids (locate store environment address) := by
  unfold locate
  split
  · exact avoids_error rfl
  · split
    · exact avoids_ok _
    · exact avoids_error rfl

theorem avoids_callFrame {entry : Value} : Avoids (callFrame store entry) := by
  unfold callFrame
  repeat' split
  all_goals first
    | exact avoids_ok _
    | exact avoids_error rfl

theorem avoids_arithmetic {second top : Int64} : Avoids (arithmetic opcode second top) := by
  unfold arithmetic
  repeat' split
  all_goals first
    | exact avoids_ok _
    | exact avoids_error rfl

theorem pop_eq {missing : String} {cell : Cell} (found : store.cell? value = some cell) :
    pop store value missing = .ok (cell.first, cell.second) := by
  simp [pop, found]

theorem avoids_popCall {closure arguments stack : Value}
    (top : store.cell? value = some ⟨closure, below⟩)
    (next : store.cell? below = some ⟨arguments, stack⟩) : Avoids (popCall store value) := by
  simp only [popCall, pop_eq top, pop_eq next, bind, Except.bind]
  split
  · exact avoids_ok _
  · exact avoids_error rfl

theorem avoids_popIntegers {first second stack : Value}
    (top : store.cell? value = some ⟨first, below⟩)
    (next : store.cell? below = some ⟨second, stack⟩) : Avoids (popIntegers store value) := by
  simp only [popIntegers, pop_eq top, pop_eq next, bind, Except.bind]
  split
  · exact avoids_ok _
  · exact avoids_error rfl
  · exact avoids_error rfl

end

theorem exists_top (deep : hasDepth store 1 rest = true) :
    ∃ value below, store.cell? rest = some ⟨value, below⟩ := by
  obtain ⟨_ | ⟨value, _ | _⟩, base, length, stacked⟩ := hasDepth_iff.mp deep
  · simp at length
  · obtain ⟨below, found, _⟩ := stacked.pop
    exact ⟨value, below, found⟩
  · simp at length

theorem exists_top_two (deep : hasDepth store 2 rest = true) :
    ∃ first below second stack, store.cell? rest = some ⟨first, below⟩ ∧
      store.cell? below = some ⟨second, stack⟩ := by
  obtain ⟨_ | ⟨first, _ | ⟨second, _ | _⟩⟩, base, length, stacked⟩ := hasDepth_iff.mp deep
  · simp at length
  · simp at length
  · obtain ⟨below, found, tail⟩ := stacked.pop
    obtain ⟨stack, next, _⟩ := tail.pop
    exact ⟨first, below, second, stack, found, next⟩
  · simp at length

/-- On a stack that is deep enough by the table, no instruction finds it too short. -/
theorem avoids_effect (deep : hasDepth store opcode.stackNeed registers.stack = true) :
    Avoids (effect store registers opcode rest) := by
  cases opcode with
  | ld => exact avoids_operand.bind fun _ => avoids_locate.bind fun _ => avoids_ok _
  | ldc | ldf => exact avoids_operand.bind fun _ => avoids_ok _
  | dum | stop => exact avoids_ok _
  | join => exact avoids_popDump.bind fun _ => avoids_ok _
  | rtn =>
      obtain ⟨_, _, top⟩ := exists_top deep
      simp only [effect, pop_eq top]
      exact avoids_popDump.bind fun _ => avoids_callFrame.bind fun _ => avoids_ok _
  | sel =>
      obtain ⟨_, _, top⟩ := exists_top deep
      simp only [effect, pop_eq top]
      refine avoids_operand.bind fun _ => avoids_operand.bind fun _ => ?_
      dsimp only [bind, Except.bind]
      split
      · exact avoids_ok _
      · exact avoids_error rfl
  | car | cdr =>
      obtain ⟨_, _, top⟩ := exists_top deep
      simp only [effect, pop_eq top, bind, Except.bind]
      split
      · exact avoids_ok _
      · exact avoids_error rfl
  | atom =>
      obtain ⟨_, _, top⟩ := exists_top deep
      simp only [effect, pop_eq top]
      exact avoids_ok _
  | cons | eq =>
      obtain ⟨_, _, _, _, top, next⟩ := exists_top_two deep
      simp only [effect, pop_eq top, pop_eq next, bind, Except.bind]
      exact avoids_ok _
  | ap =>
      obtain ⟨_, _, _, _, top, next⟩ := exists_top_two deep
      exact (avoids_popCall top next).bind fun _ => avoids_ok _
  | rap =>
      obtain ⟨_, _, _, _, top, next⟩ := exists_top_two deep
      refine (avoids_popCall top next).bind fun call => ?_
      split
      · split
        · exact avoids_ok _
        · exact avoids_error rfl
      · exact avoids_error rfl
  | add | sub | mul | div | rem | leq =>
      obtain ⟨_, _, _, _, top, next⟩ := exists_top_two deep
      exact (avoids_popIntegers top next).bind fun _ =>
        avoids_arithmetic.bind fun _ => avoids_ok _

end Instruction

namespace Assembler

variable {store later : Store} {fuel position index count : Nat} {opcode : Opcode}
  {reversed values : List Value} {rest code control made : Value}
  {nested : Store → Value → Except AssemblyError (Value × Store)}

def Adds (nested : Store → Value → Except AssemblyError (Value × Store)) : Prop :=
  ∀ store code made later, nested store code = .ok (made, later) → store.Extends later

theorem extends_operands (adds : Adds nested) {taken after : Taken}
    (done : operands nested position opcode index count taken = .ok after) :
    taken.store.Extends after.store := by
  fun_induction operands nested position opcode index count taken with
  | case1 =>
      cases done
      exact Store.extends_refl _
  | case2 | case4 => cases done
  | case3 _ _ _ _ _ _ _ _ ih => exact ih done
  | case5 _ _ _ _ _ _ _ _ _ _ made ih => exact (adds _ _ _ _ made).trans (ih done)

theorem adds_assembleFrom :
    ∀ {position reversed},
      Adds fun store code => assembleFrom fuel store position reversed code := by
  induction fuel with
  | zero => exact fun _ _ _ _ done => nomatch done
  | succ fuel ih =>
      intro position reversed store code made later done
      simp only [assembleFrom] at done
      split at done
      · split at done
        · obtain rfl : _ = later := congrArg Prod.snd (Except.ok.inj done)
          exact Store.extends_consReversed _
        · cases done
      · split at done
        · cases done
        · split at done
          · cases done
          · rename_i taken
            exact (extends_operands ih taken).trans (ih _ _ _ _ done)

def madeFrom (nested : Store → Value → Except AssemblyError (Value × Store)) (kind : OperandKind) :
    List Value → List Value → Store → Except AssemblyError (List Value × Store)
  | [], reversed, store => .ok (reversed, store)
  | operand :: operands, reversed, store =>
      match kind with
      | .literal => madeFrom nested kind operands (operand :: reversed) store
      | .code =>
          match nested store operand with
          | .error error => .error error
          | .ok (operand, store) => madeFrom nested kind operands (operand :: reversed) store

theorem operands_of_stacked (adds : Adds nested) (stacked : store.Stacked code values rest) :
    operands nested position opcode index values.length ⟨reversed, rest, store⟩ =
      (madeFrom nested opcode.operandKind values reversed store).map
        fun (reversed, store) => ⟨reversed, code, store⟩ := by
  induction values generalizing store rest reversed index with
  | nil =>
      cases stacked
      rfl
  | cons value values ih =>
      obtain ⟨below, found, tail⟩ := stacked.pop
      cases kind : opcode.operandKind with
      | literal =>
          simp only [List.length_cons, operands, found, madeFrom, kind]
          rw [ih tail, kind]
      | code =>
          simp only [List.length_cons, operands, found, madeFrom, kind]
          cases outcome : nested store value with
          | error error => rfl
          | ok result => simp only [ih (tail.mono (adds _ _ _ _ outcome)), kind]

/-- The assembler takes the operands that the table gives the instruction, and goes on with the code
after them. -/
theorem assembleFrom_of_lays (lays : store.Lays control opcode values code) :
    assembleFrom (fuel + 1) store position reversed control =
      match madeFrom (fun store code => assembleFrom fuel store 0 [] code) opcode.operandKind values
          (.integer (Int64.ofNat opcode.number) :: reversed) store with
      | .error error => .error error
      | .ok (reversed, later) => assembleFrom fuel later (position + 1) reversed code := by
  obtain ⟨rest, opens, stacked⟩ := lays.opens
  have named : Assembler.opcode position (.integer (Int64.ofNat opcode.number)) = .ok opcode := by
    simp only [Assembler.opcode, opcode.ofNumber?_number]
  rw [assembleFrom_pair opens, named]
  simp only [onward]
  rw [← lays.count, operands_of_stacked adds_assembleFrom stacked]
  cases madeFrom _ _ _ _ _ <;> rfl

end Assembler

namespace Listing

variable {store : Store} {fuel depth position : Nat} {opcode : Opcode} {values : List Value}
  {rest code control : Value} {lines : List String} {nested : Value → List String → List String}

def operandLines (nested : Value → List String → List String) (depth : Nat) :
    List (Option String × Value) → List String → List String
  | [], lines => lines
  | (label, operand) :: operands, lines =>
      operandLines nested depth operands
        (nested operand ((label.map fun text => indent depth ++ "      " ++ text ++ "\n").toList ++
          lines))

theorem addOperands_of_stacked {texts : List (Option String)} (count : values.length = texts.length)
    (stacked : store.Stacked code values rest) :
    addOperands store nested depth texts rest lines =
      (operandLines nested depth (texts.zip values) lines, code) := by
  induction values generalizing texts rest lines with
  | nil =>
      cases texts with
      | nil =>
          cases stacked
          rfl
      | cons => simp at count
  | cons value values ih =>
      cases texts with
      | nil => simp at count
      | cons text texts =>
          obtain ⟨below, found, tail⟩ := stacked.pop
          simp only [addOperands, found]
          rw [ih (by simpa using count) tail]
          cases text <;> rfl

theorem literals_of_stacked {text : String} (stacked : store.Stacked code values rest) :
    literals store values.length rest text =
      (values.foldl (fun text value => text ++ " " ++ store.format value) text, code) := by
  induction values generalizing rest text with
  | nil =>
      cases stacked
      rfl
  | cons value values ih =>
      obtain ⟨below, found, tail⟩ := stacked.pop
      simp only [List.length_cons, literals, found]
      rw [ih tail]
      rfl

def instructionLines (store : Store) (fuel depth position : Nat) (opcode : Opcode)
    (operands : List Value) (lines : List String) : List String :=
  match opcode.operandKind with
  | .literal =>
      line depth position
        (operands.foldl (fun text value => text ++ " " ++ store.format value) opcode.name) :: lines
  | .code =>
      operandLines (addLines store fuel (depth + 1) 0) depth ((labels opcode).zip operands)
        (line depth position opcode.name :: lines)

theorem length_labels {opcode : Opcode} (kind : opcode.operandKind = .code) :
    (labels opcode).length = opcode.operandCount := by
  cases opcode <;> first | rfl | cases kind

/-- The listing shows the operands that the table gives the instruction, and goes on with the code
after them. -/
theorem addLines_of_lays (lays : store.Lays control opcode values code) :
    addLines store (fuel + 1) depth position control lines =
      addLines store fuel depth (position + 1) code
        (instructionLines store fuel depth position opcode values lines) := by
  obtain ⟨rest, opens, stacked⟩ := lays.opens
  have named : opcode? (.integer (Int64.ofNat opcode.number)) = some opcode :=
    opcode.ofNumber?_number
  have found : store.cell? control = some ⟨.integer (Int64.ofNat opcode.number), rest⟩ := opens
  simp only [addLines, found, named, instructionLines]
  cases kind : opcode.operandKind with
  | literal => rw [← lays.count, literals_of_stacked stacked]
  | code =>
      simp only
      rw [addOperands_of_stacked (lays.count.trans (length_labels kind).symm) stacked]

end Listing

/-- The frame that a recursive call completes is an old pair, so what the call saves stays as it
was saved. -/
theorem Effect.saves_callRecursive {registers : Registers} {store : Store} {frame : Address}
    (old : frame < store.size) (closure arguments stack environment control : Value) :
    let after := (callRecursive closure arguments frame stack environment control).perform registers
      store
    after.2.Saves after.1.dump stack environment control registers.dump := by
  have saves := (store.setFirst frame arguments).saves_saveCall stack environment control
    registers.dump
  rw [Store.size_list, Store.size_setFirst, ← Store.setFirst_saveCall old] at saves
  intro after
  have dump : after.1.dump = .pair (store.list [stack, environment, control]).2.size := rfl
  rw [dump, Store.size_list]
  exact saves

namespace Configuration

variable {configuration : Configuration} {opcode : Opcode} {rest code below : Value}
  {effect : Effect} {operands popped : List Value}

/-- Where the code after an instruction and the stack below its operands have gone: into the
registers, or into the entry that the instruction adds to the dump. -/
def Leaves (configuration : Configuration) (opcode : Opcode) (code below : Value) : Prop :=
  let registers := configuration.registers
  let next := configuration.next
  match opcode with
  | .ap => next.store.Saves next.registers.dump below registers.environment code registers.dump
  | .rap => next.store.Saves next.registers.dump below
      (configuration.store.second registers.environment) code registers.dump
  | .sel => next.store.cell? next.registers.dump = some ⟨code, registers.dump⟩ ∧
      next.registers.stack = below
  | .dum => next.registers.control = code ∧ next.registers.stack = below
  | _ => next.registers.control = code ∧
      ∃ value, next.store.cell? next.registers.stack = some ⟨value, below⟩

theorem leaves_of_isArithmetic (kind : opcode.isArithmetic = true) :
    configuration.Leaves opcode code below ↔ configuration.next.registers.control = code ∧
      ∃ value, configuration.next.store.cell? configuration.next.registers.stack =
        some ⟨value, below⟩ := by
  cases opcode <;> first | rfl | cases kind

theorem Executes.leaves (executes : configuration.Executes opcode rest effect)
    (other : opcode ∉ [.rtn, .join, .stop]) :
    ∃ operands code popped below,
      configuration.store.Lays configuration.registers.control opcode operands code ∧
      popped.length = opcode.stackNeed ∧
      configuration.store.Stacked below popped configuration.registers.stack ∧
      configuration.Leaves opcode code below := by
  have opens := Store.opens_of_decode executes.decoded
  have registers := executes.registers
  have store := executes.store
  cases executes.performs with
  | ld operand _ | ldc operand =>
      refine ⟨_, _, [], _, ⟨rfl, .push opens (.push operand .base)⟩, rfl, .base, ?_⟩
      simp only [Leaves, registers, store]
      exact ⟨rfl, _, Store.cell?_cons_self⟩
  | ldf operand =>
      refine ⟨_, _, [], _, ⟨rfl, .push opens (.push operand .base)⟩, rfl, .base, ?_⟩
      simp only [Leaves, registers, store]
      exact ⟨rfl, _, Store.cell?_cons_self⟩
  | ap top next _ =>
      refine ⟨[], _, _, _, ⟨rfl, .push opens .base⟩, rfl, .push top (.push next .base), ?_⟩
      simp only [Leaves, registers, store]
      exact (Store.saves_saveCall _ _ _ _ _).mono (Store.extends_cons _ _ _)
  | dum =>
      refine ⟨[], _, [], _, ⟨rfl, .push opens .base⟩, rfl, .base, ?_⟩
      simp only [Leaves, registers]
      exact ⟨rfl, rfl⟩
  | rap top next _ completed around =>
      refine ⟨[], _, _, _, ⟨rfl, .push opens .base⟩, rfl, .push top (.push next .base), ?_⟩
      simp only [Leaves, registers, store, Store.second_of_cell? around]
      exact Effect.saves_callRecursive (Store.lt_size_of_cell? completed) _ _ _ _ _
  | sel operand more top =>
      refine ⟨_, _, _, _, ⟨rfl, .push opens (.push operand (.push more .base))⟩, rfl,
        .push top .base, ?_⟩
      simp only [Leaves, registers, store]
      exact ⟨Store.cell?_cons_self, rfl⟩
  | car top | cdr top | atom top =>
      refine ⟨[], _, _, _, ⟨rfl, .push opens .base⟩, rfl, .push top .base, ?_⟩
      simp only [Leaves, registers, store]
      exact ⟨rfl, _, Store.cell?_cons_self⟩
  | cons top next | eq top next =>
      refine ⟨[], _, _, _, ⟨rfl, .push opens .base⟩, rfl, .push top (.push next .base), ?_⟩
      simp only [Leaves, registers, store]
      exact ⟨rfl, _, Store.cell?_cons_self⟩
  | arithmetic kind top next _ =>
      have counts : opcode.operandCount = 0 ∧ opcode.stackNeed = 2 := by
        cases opcode <;> first | exact ⟨rfl, rfl⟩ | cases kind
      refine ⟨[], _, [_, _], _, ⟨counts.1.symm, .push opens .base⟩, counts.2.symm,
        .push top (.push next .base), ?_⟩
      rw [leaves_of_isArithmetic kind, registers, store]
      exact ⟨rfl, _, Store.cell?_cons_self⟩
  | rtn | join | stop => simp at other

theorem Stops.isExcluded_eq_false {fault : Fault} (stops : configuration.Stops (.fault fault))
    (decoded : Instruction.decode configuration.store configuration.registers.control =
      .ok (opcode, rest)) : fault.cause.isExcluded = false := by
  cases stops with
  | undecoded _ failed =>
      have both := decoded.symm.trans failed
      simp at both
  | unperformed _ _ failed =>
      simp only [Machine.effectOf] at failed
      split at failed
      · rename_i deep
        exact Instruction.avoids_effect deep _ failed
      · cases failed
        rfl

/-- The machine keeps to the table. On a deep enough stack an instruction never finds the stack
empty and never turns out to be unknown; on any other stack the step is an underflow, whatever else
is wrong. What is left of the code and of the stack lies exactly as many cells on as the table says,
and the cells in between are those that the assembler and the listing take for operands. -/
theorem step_keeps_to_table (configuration : Configuration) (opcode : Opcode) (rest : Value)
    (decoded : Instruction.decode configuration.store configuration.registers.control =
      .ok (opcode, rest)) :
    let store := configuration.store
    let registers := configuration.registers
    (store.HasCells opcode.stackNeed registers.stack →
      (∀ cause, Instruction.effect store registers opcode rest = .error cause →
        (∀ missing, cause ≠ .stackEmpty missing) ∧ cause.kind ≠ .unknownOpcode) ∧
      ∀ fault, configuration.error? = some (.fault fault) →
        (∀ missing, fault.cause ≠ .stackEmpty missing) ∧ fault.cause.kind ≠ .unknownOpcode) ∧
    (¬store.HasCells opcode.stackNeed registers.stack → configuration.machine.halted = false →
      (configuration.machine.traced store opcode).1 = none →
      ∃ fault, configuration.error? = some (.fault fault) ∧ fault.cause = .stackTooShort opcode ∧
        fault.cause.kind = .underflow) ∧
    (configuration.error? = none → opcode ∉ [.rtn, .join, .stop] →
      ∃ operands popped,
        let code := store.second^[1 + opcode.operandCount] registers.control
        let below := store.second^[opcode.stackNeed] registers.stack
        store.Lays registers.control opcode operands code ∧
        popped.length = opcode.stackNeed ∧ store.Stacked below popped registers.stack ∧
        configuration.Leaves opcode code below ∧
        (∀ fuel position reversed,
          Assembler.assembleFrom (fuel + 1) store position reversed registers.control =
            match Assembler.madeFrom (fun store code => Assembler.assembleFrom fuel store 0 [] code)
                opcode.operandKind operands (.integer (Int64.ofNat opcode.number) :: reversed)
                store with
            | .error error => .error error
            | .ok (reversed, later) =>
                Assembler.assembleFrom fuel later (position + 1) reversed code) ∧
        ∀ fuel depth position lines,
          Listing.addLines store (fuel + 1) depth position registers.control lines =
            Listing.addLines store fuel depth (position + 1) code
              (Listing.instructionLines store fuel depth position opcode operands lines)) := by
  intro store registers
  refine ⟨fun deep => ⟨fun cause failed => ?_, fun fault failed => ?_⟩,
    fun shallow running traced => ?_, fun succeeded other => ?_⟩
  · rw [← Cause.isExcluded_eq_false_iff]
    exact Instruction.avoids_effect (Instruction.hasDepth_iff.mpr deep) cause failed
  · rw [← Cause.isExcluded_eq_false_iff]
    rcases configuration.step_cases with ⟨error, _, reported, stops, _⟩ | ⟨succeeded, _⟩
    · rw [failed] at reported
      cases reported
      exact stops.isExcluded_eq_false decoded
    · rw [failed] at succeeded
      cases succeeded
  · obtain ⟨failure, trace, written, _⟩ := traced_eq configuration.machine store opcode
    rw [written] at traced
    obtain rfl : failure = none := traced
    have refused : configuration.machine.effectOf store opcode rest =
        .error (.stackTooShort opcode) :=
      if_neg fun deep => shallow (Instruction.hasDepth_iff.mp deep)
    refine ⟨⟨.stackTooShort opcode, some opcode, configuration.machine.steps, registers⟩, ?_, rfl,
      rfl⟩
    rw [error?, step_of_traced running decoded written, refused]
    rfl
  · obtain ⟨rest, effect, executes⟩ := Completes.executes ⟨succeeded, rest, decoded⟩
    obtain ⟨operands, code, popped, below, lays, count, stacked, leaves⟩ := executes.leaves other
    obtain rfl := lays.second_iterate
    obtain rfl := stacked.second_iterate
    rw [count] at stacked leaves
    exact ⟨operands, popped, lays, count, stacked, leaves,
      fun _ _ _ => Assembler.assembleFrom_of_lays lays,
      fun _ _ _ _ => Listing.addLines_of_lays lays⟩

def callOnEndlessStack : Configuration where
  machine := { registers := ⟨.pair 1, .pair 0, .pair 3, .nil⟩ }
  store := ⟨#[⟨.nil, .nil⟩, ⟨.pair 2, .pair 1⟩, ⟨.nil, .pair 0⟩, ⟨.integer 7, .empty⟩]⟩

def additionOfOne : Configuration where
  machine := { registers := ⟨.pair 0, .nil, .pair 1, .integer 5⟩ }
  store := ⟨#[⟨.symbol "x", .nil⟩, ⟨.integer 15, .nil⟩]⟩

theorem endlessStack_and_additionOfOne_keep_to_table :
    (callOnEndlessStack.error? = none ∧ callOnEndlessStack.Leaves .rap .empty (.pair 1)) ∧
    ∃ fault, additionOfOne.error? = some (.fault fault) ∧ fault.cause = .stackTooShort .add ∧
      fault.cause.kind = .underflow := by
  refine ⟨⟨by decide, ?_⟩, ?_⟩
  · obtain ⟨_, _, _, _, _, leaves, _⟩ :=
      (step_keeps_to_table callOnEndlessStack .rap .empty (by decide)).2.2 (by decide) (by decide)
    exact leaves
  · refine (step_keeps_to_table additionOfOne .add .nil (by decide)).2.1 ?_ rfl rfl
    rw [← Instruction.hasDepth_iff]
    decide

end Configuration

end SecdMachine
