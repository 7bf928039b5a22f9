import Mathlib.Algebra.Group.Nat.Defs
import Mathlib.Data.Nat.Factorial.Basic
import SecdMachine.Assembler
import SecdMachine.Reader
import SecdMachine.Proofs.Contracts

/-!
A recursive function, in code. The program binds a closure to its own name by DUM and RAP and calls
it once for every number from its argument down to zero. Whatever the argument, it ends and gives the
factorial, reduced to 64 bits.
-/

namespace SecdMachine

namespace Factorial

section

variable (spell : Opcode → Datum)

def address (frame position : Int64) : Datum :=
  .pair (.integer frame) (.integer position)

def atZero : Datum :=
  .ofList [spell .ldc, .integer 1, spell .join]

def aboveZero : Datum :=
  .ofList [spell .ld, address 0 0, spell .ldc, .nil, spell .ld, address 0 0, spell .ldc, .integer 1,
    spell .sub, spell .cons, spell .ld, address 1 0, spell .ap, spell .mul, spell .join]

/-- `(lambda (x) (if (eq x 0) 1 (mul x (fac (sub x 1)))))` -/
def function : Datum :=
  .ofList [spell .ld, address 0 0, spell .ldc, .integer 0, spell .eq, spell .sel, atZero spell,
    aboveZero spell, spell .rtn]

def application : Datum :=
  .ofList [spell .ldc, .nil, spell .ld, address 1 0, spell .cons, spell .ld, address 0 0, spell .ap,
    spell .rtn]

/-- `(lambda (n) (letrec (fac n) (fac lambda (x) ...)))` -/
def recursion : Datum :=
  .ofList [spell .dum, spell .ldc, .nil, spell .ldf, function spell, spell .cons, spell .ldf,
    application spell, spell .rap, spell .rtn]

def program : Datum :=
  .ofList [spell .ldf, recursion spell, spell .ap, spell .stop]

end

def source : String :=
  "
(LDF (DUM LDC NIL
      LDF (LD (0 . 0) LDC 0 EQ
           SEL (LDC 1 JOIN)
               (LD (0 . 0)
                LDC NIL LD (0 . 0) LDC 1 SUB CONS LD (1 . 0) AP
                MUL JOIN)
           RTN)
      CONS
      LDF (LDC NIL LD (1 . 0) CONS LD (0 . 0) AP RTN)
      RAP RTN)
 AP STOP)"

def bytecode : String :=
  "(3 (6 2 NIL
      3 (1 (0 . 0) 2 0 14
         8 (2 1 9)
           (1 (0 . 0) 2 NIL 1 (0 . 0) 2 1 16 13 1 (1 . 0) 4 17 9)
         5)
      13
      3 (2 NIL 1 (1 . 0) 13 1 (0 . 0) 4 5)
      7 5)
   4 21)
"

def Bound (text store : Store) (environment : Value) : Prop :=
  ∃ functions outer closure others body,
    store.cell? environment = some ⟨functions, outer⟩ ∧
      store.cell? functions = some ⟨closure, others⟩ ∧
      store.cell? closure = some ⟨body, environment⟩ ∧
      text.Denotes body (function Opcode.datum)

def Called (text store : Store) (environment : Value) (argument : Nat) : Prop :=
  ∃ frame outer others,
    store.cell? environment = some ⟨frame, outer⟩ ∧
      store.cell? frame = some ⟨.integer (Int64.ofNat argument), others⟩ ∧ Bound text store outer

variable {text store later : Store} {environment : Value} {argument : Nat}

theorem Bound.mono (bound : Bound text store environment) (extended : store.Extends later) :
    Bound text later environment := by
  obtain ⟨functions, outer, closure, others, body, first, second, third, defined⟩ := bound
  exact ⟨functions, outer, closure, others, body, extended.cell? first, extended.cell? second,
    extended.cell? third, defined⟩

theorem Called.mono (called : Called text store environment argument)
    (extended : store.Extends later) : Called text later environment argument := by
  obtain ⟨frame, outer, others, first, second, bound⟩ := called
  exact ⟨frame, outer, others, extended.cell? first, extended.cell? second, bound.mono extended⟩

theorem located_here (store : Store) (environment : Value) :
    store.first (Instruction.walk store (0 : Int64).toInt.toNat
      (store.first (Instruction.walk store (0 : Int64).toInt.toNat environment))) =
        store.first (store.first environment) := rfl

theorem located_around {frame outer : Value}
    (found : store.cell? environment = some ⟨frame, outer⟩) :
    store.first (Instruction.walk store (0 : Int64).toInt.toNat
      (store.first (Instruction.walk store (1 : Int64).toInt.toNat environment))) =
        store.first (store.first outer) := by
  show store.first (store.first (Instruction.walk store 1 environment)) = _
  simp only [Instruction.walk, found]

theorem Called.first_eq (called : Called text store environment argument) :
    store.first (store.first environment) = .integer (Int64.ofNat argument) := by
  obtain ⟨frame, outer, others, first, second, _⟩ := called
  rw [Store.first_of_cell? first, Store.first_of_cell? second]

theorem Called.located (called : Called text store environment argument) :
    store.first (Instruction.walk store (0 : Int64).toInt.toNat
      (store.first (Instruction.walk store (0 : Int64).toInt.toNat environment))) =
        .integer (Int64.ofNat argument) :=
  (located_here store environment).trans called.first_eq

theorem Bound.closure (bound : Bound text store environment) :
    ∃ closure body, store.first (store.first environment) = closure ∧
      store.cell? closure = some ⟨body, environment⟩ ∧
      text.Denotes body (function Opcode.datum) := by
  obtain ⟨functions, outer, closure, others, body, first, second, third, defined⟩ := bound
  refine ⟨closure, body, ?_, third, defined⟩
  rw [Store.first_of_cell? first, Store.first_of_cell? second]

theorem only_integer {number : Int64} (found : Value)
    (denotes : text.Denotes found (.integer number)) : found = .integer number := by
  cases denotes
  rfl

theorem only_nil (found : Value) (denotes : text.Denotes found .nil) : found = .nil := by
  cases denotes
  rfl

open Nat in
def Correct (text : Store) (argument : Nat) : Prop :=
  ∀ entry origin, Called text origin entry.environment argument →
    Computes text origin entry .nil [] (function Opcode.datum) origin →
      ∃ last, Computes text origin entry .nil [.integer (Int64.ofNat argument !)]
        (.pair Opcode.rtn.datum .nil) last

theorem atZero_computes {origin : Store} {entry : Registers}
    (computes : Computes text origin entry .nil [] (atZero Opcode.datum) origin) :
    ∃ last, Computes text origin entry .nil [.integer 1] (.pair Opcode.join.datum .nil) last := by
  obtain ⟨last, _, computes⟩ := computes.ldc only_integer
  exact ⟨last, computes⟩

open Nat in
theorem aboveZero_computes {origin : Store} {entry : Registers} (correct : Correct text argument)
    (called : Called text origin entry.environment (argument + 1))
    (computes : Computes text origin entry .nil [] (aboveZero Opcode.datum) origin) :
    ∃ last, Computes text origin entry .nil [.integer (Int64.ofNat (argument + 1)!)]
      (.pair Opcode.join.datum .nil) last := by
  obtain ⟨first, grown, computes⟩ := computes.ld called.located
  obtain ⟨second, wider, computes⟩ := computes.ldc only_nil
  have grown := grown.trans wider
  obtain ⟨third, wider, computes⟩ := computes.ld (called.mono grown).located
  have grown := grown.trans wider
  obtain ⟨fourth, wider, computes⟩ := computes.ldc only_integer
  have grown := grown.trans wider
  have smaller : Int64.ofNat (argument + 1) - 1 = Int64.ofNat argument := by
    rw [Int64.ofNat_add]
    exact Int64.add_sub_cancel ..
  obtain ⟨fifth, wider, computes⟩ := computes.arithmetic rfl rfl
  rw [smaller] at computes
  have grown := grown.trans wider
  obtain ⟨sixth, frame, wider, framed, computes⟩ := computes.cons
  obtain ⟨_, outer, _, around, _, bound⟩ := called.mono (grown.trans wider)
  obtain ⟨closure, body, found, applied, defined⟩ := bound.closure
  obtain ⟨seventh, grown, computes⟩ := computes.ld ((located_around around).trans found)
  obtain ⟨eighth, _, computes⟩ := computes.apply (grown.cell? applied) defined
    fun start inner wider entered =>
      correct start inner ⟨frame, outer, .nil, entered, (grown.trans wider).cell? framed,
        bound.mono (grown.trans wider)⟩
  obtain ⟨last, _, computes⟩ := computes.arithmetic rfl rfl
  rw [← Int64.ofNat_mul] at computes
  exact ⟨last, computes⟩

theorem function_computes (small : argument < 2 ^ 63) : Correct text argument := by
  intro entry origin called computes
  induction argument generalizing origin entry with
  | zero =>
      obtain ⟨_, _, computes⟩ := computes.ld called.located
      obtain ⟨_, _, computes⟩ := computes.ldc only_integer
      obtain ⟨_, _, computes⟩ := computes.eq
      obtain ⟨last, _, computes⟩ := computes.branch fun _ _ _ _ => atZero_computes
      exact ⟨last, computes⟩
  | succ argument ih =>
      obtain ⟨first, grown, computes⟩ := computes.ld called.located
      obtain ⟨second, wider, computes⟩ := computes.ldc only_integer
      have grown := grown.trans wider
      obtain ⟨third, wider, computes⟩ := computes.eq
      have grown := grown.trans wider
      have nonzero : (0 : Int64) ≠ Int64.ofNat (argument + 1) := by
        intro same
        have same := congrArg Int64.toInt same
        rw [Int64.toInt_ofNat_of_lt small] at same
        simp only [Int64.toInt_zero] at same
        omega
      have different : Instruction.eqAtoms (.integer 0) (.integer (Int64.ofNat (argument + 1))) =
          false := by
        simpa [Instruction.eqAtoms] using nonzero
      rw [different] at computes
      obtain ⟨last, _, computes⟩ := computes.branch fun start inner wider same =>
        aboveZero_computes (ih (by omega)) (same ▸ called.mono (grown.trans wider))
      exact ⟨last, computes⟩

open Nat in
theorem application_computes {origin : Store} {entry : Registers} {functions outer : Value}
    (small : argument < 2 ^ 63) (bound : Bound text origin entry.environment)
    (around : origin.cell? entry.environment = some ⟨functions, outer⟩)
    (given : ∀ later, origin.Extends later →
      later.first (later.first outer) = .integer (Int64.ofNat argument))
    (computes : Computes text origin entry .nil [] (application Opcode.datum) origin) :
    ∃ last, Computes text origin entry .nil [.integer (Int64.ofNat argument !)]
      (.pair Opcode.rtn.datum .nil) last := by
  obtain ⟨first, grown, computes⟩ := computes.ldc only_nil
  obtain ⟨second, wider, computes⟩ := computes.ld
    ((located_around (grown.cell? around)).trans (given first grown))
  have grown := grown.trans wider
  obtain ⟨third, frame, wider, framed, computes⟩ := computes.cons
  have grown := grown.trans wider
  obtain ⟨closure, body, found, applied, defined⟩ := (bound.mono grown).closure
  obtain ⟨fourth, wider, computes⟩ := computes.ld ((located_here third _).trans found)
  obtain ⟨last, _, computes⟩ := computes.apply (wider.cell? applied) defined
    fun start inner further entered =>
      function_computes small start inner ⟨frame, entry.environment, .nil, entered,
        (wider.trans further).cell? framed, bound.mono ((grown.trans wider).trans further)⟩
  exact ⟨last, computes⟩

theorem completed_cell? {frame : Address} {value first second : Value}
    (placeholder : store.cell? (.pair frame) = some ⟨.nil, environment⟩)
    (found : store.cell? value = some ⟨first, second⟩) (other : first ≠ .nil) (completion : Value) :
    (store.setFirst frame completion).cell? value = some ⟨first, second⟩ := by
  obtain ⟨address, rfl⟩ := Store.eq_pair_of_cell? found
  have apart : frame ≠ address := by
    rintro rfl
    rw [placeholder] at found
    injection found with same
    exact other (Cell.mk.inj same).1.symm
  rw [Store.cell?_setFirst_of_ne apart, found]

theorem ne_nil_of_cell? {value : Value} {cell : Cell} (found : store.cell? value = some cell) :
    value ≠ .nil := by
  obtain ⟨address, rfl⟩ := Store.eq_pair_of_cell? found
  simp [Value.nil]

/-- Completing the frame binds the function in the very environment it is closed over. -/
theorem bound_of_completed {frame : Address} {functions outer closure others body : Value}
    (placeholder : store.cell? (.pair frame) = some ⟨.nil, outer⟩)
    (listed : store.cell? functions = some ⟨closure, others⟩)
    (closed : store.cell? closure = some ⟨body, .pair frame⟩)
    (defined : text.Denotes body (function Opcode.datum)) :
    Bound text (store.setFirst frame functions) (.pair frame) := by
  have begun : body ≠ .nil := by
    cases defined
    simp [Value.nil]
  exact ⟨functions, outer, closure, others, body, Store.cell?_setFirst_self placeholder,
    completed_cell? placeholder listed (ne_nil_of_cell? closed) functions,
    completed_cell? placeholder closed begun functions, defined⟩

open Nat in
theorem recursion_computes {origin : Store} {entry : Registers} {arguments outer others : Value}
    (small : argument < 2 ^ 63)
    (around : origin.cell? entry.environment = some ⟨arguments, outer⟩)
    (given : origin.cell? arguments = some ⟨.integer (Int64.ofNat argument), others⟩)
    (computes : Computes text origin entry .nil [] (recursion Opcode.datum) origin) :
    ∃ last, Computes text origin entry .nil [.integer (Int64.ofNat argument !)]
      (.pair Opcode.rtn.datum .nil) last := by
  obtain ⟨last, _, computes⟩ := computes.letrec (by
    intro start inner frame grown environment placeholder computes
    obtain ⟨first, wider, computes⟩ := computes.ldc only_nil
    obtain ⟨second, closure, body, further, closed, defined, computes⟩ := computes.ldf
    have wider := wider.trans further
    obtain ⟨third, functions, further, listed, computes⟩ := computes.cons
    have wider := wider.trans further
    have closed := further.cell? closed
    obtain ⟨fourth, main, control, further, made, written, computes⟩ := computes.ldf
    have wider := wider.trans further
    have closed := further.cell? closed
    rw [environment] at made closed
    refine ⟨fourth, main, functions, control, _, _, computes, made, written, ?_⟩
    intro start' inner' completed entered computes
    -- From here on the frame that DUM made is the list of functions, and nothing else has changed.
    have placeholder := wider.cell? placeholder
    have knot := (bound_of_completed placeholder (further.cell? listed) closed defined).mono
      completed
    have frame := completed.cell? (@Store.cell?_setFirst_self _ _ functions _ placeholder)
    have around := completed.cell? (completed_cell? placeholder
      ((grown.trans wider).cell? around) (ne_nil_of_cell? given) functions)
    have given := completed.cell? (completed_cell? placeholder
      ((grown.trans wider).cell? given) (by simp [Value.nil]) functions)
    rw [← entered] at knot frame
    refine application_computes small knot frame ?_ computes
    intro later extended
    rw [Store.first_of_cell? (extended.cell? around), Store.first_of_cell? (extended.cell? given)])
  exact ⟨last, computes⟩

open Nat in
theorem program_computes {entry : Registers} {origin : Store} {arguments others : Value}
    (small : argument < 2 ^ 63)
    (given : origin.cell? arguments = some ⟨.integer (Int64.ofNat argument), others⟩)
    (computes : Computes text origin entry .nil [arguments] (program Opcode.datum) origin) :
    ∃ last, Computes text origin entry .nil [.integer (Int64.ofNat argument !)]
      (.pair Opcode.stop.datum .nil) last := by
  obtain ⟨first, closure, body, grown, closed, defined, computes⟩ := computes.ldf
  obtain ⟨last, _, computes⟩ := computes.apply closed defined
    fun start inner wider entered =>
      recursion_computes small entered ((grown.trans wider).cell? given)
  exact ⟨last, computes⟩

set_option maxRecDepth 4000 in
theorem read_source :
    readText source.toList = .ok (program fun opcode => .symbol opcode.name) := by
  have spelled : source.toList = _ := String.toList_ofList
  rw [spelled]
  decide +kernel

set_option maxRecDepth 4000 in
theorem read_bytecode : readText bytecode.toList = .ok (program Opcode.datum) := by
  have spelled : bytecode.toList = _ := String.toList_ofList
  rw [spelled]
  decide +kernel

def loadedSource : Value × Store :=
  Store.load {} (program fun opcode => .symbol opcode.name)

theorem assemble_source :
    ∃ code store, Assembler.assemble loadedSource.2 loadedSource.1 = .ok (code, store) ∧
      store.Denotes code (program Opcode.datum) := by
  have evaluated : ((Assembler.assemble loadedSource.2 loadedSource.1).toOption.bind
      fun found => found.2.datum? found.2.size found.1) = some (program Opcode.datum) := by
    decide +kernel
  cases assembled : Assembler.assemble loadedSource.2 loadedSource.1 with
  | error error =>
      rw [assembled] at evaluated
      cases evaluated
  | ok found =>
      obtain ⟨code, store⟩ := found
      rw [assembled] at evaluated
      exact ⟨code, store, rfl, Store.denotes_of_datum? evaluated⟩

open Nat in
/-- The program, read and assembled, is the code in numbers. On every number it ends without a fault
and gives the factorial of that number, reduced to 64 bits. -/
theorem factorial_is_computed :
    readText source.toList = .ok (program fun opcode => .symbol opcode.name) ∧
    readText bytecode.toList = .ok (program Opcode.datum) ∧
    (∃ code store, Assembler.assemble loadedSource.2 loadedSource.1 = .ok (code, store) ∧
      store.Denotes code (program Opcode.datum)) ∧
    ∀ (number : Nat) (store : Store) (code arguments : Value), number < 2 ^ 63 →
      store.Denotes code (program Opcode.datum) →
      store.Denotes arguments (.ofList [.integer (Int64.ofNat number)]) →
      ∃ result bound, result.toInt = Int.bmod (number ! : Nat) (2 ^ 64) ∧
        ∀ fuel, bound ≤ fuel →
          (Machine.execute fuel store code arguments).outcome = .ok (.integer result) := by
  refine ⟨read_source, read_bytecode, assemble_source, ?_⟩
  intro number store code arguments small coded given
  obtain ⟨value, rest, found, first, _⟩ := given.operand
  cases first
  have grown := store.extends_cons arguments .nil
  have computes : Computes store (store.cons arguments .nil).2
      ⟨.pair store.size, .nil, code, .nil⟩ .nil [arguments] (program Opcode.datum)
      (store.cons arguments .nil).2 :=
    .enter grown coded (.push Store.cell?_cons_self .base)
  obtain ⟨last, computes⟩ := program_computes small (grown.cell? found) computes
  obtain ⟨bound, ends⟩ := computes.outcome 0
  exact ⟨Int64.ofNat number !, bound, Int64.toInt_ofNat', ends⟩

def loadedProgram : Value × Store :=
  Store.load {} (program Opcode.datum)

def loadedArguments : Value × Store :=
  loadedProgram.2.load (.ofList [.integer 21])

theorem factorial_of_twentyOne :
    ∃ bound, ∀ fuel, bound ≤ fuel →
      (Machine.execute fuel loadedArguments.2 loadedProgram.1 loadedArguments.1).outcome =
        .ok (.integer (-4249290049419214848)) := by
  have coded : loadedArguments.2.Denotes loadedProgram.1 (program Opcode.datum) :=
    (Store.denotes_load {} _).mono fun _ _ => Store.cell?_load_of_cell? _
  obtain ⟨result, bound, reduced, ends⟩ := factorial_is_computed.2.2.2 21 loadedArguments.2
    loadedProgram.1 loadedArguments.1 (by decide) coded (Store.denotes_load loadedProgram.2 _)
  have same : result = -4249290049419214848 := by
    rw [← Int64.toInt_inj, reduced]
    decide
  exact ⟨bound, same ▸ ends⟩

end Factorial

end SecdMachine
