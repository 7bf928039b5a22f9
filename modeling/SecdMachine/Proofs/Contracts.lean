import Mathlib.Logic.Relation
import SecdMachine.Proofs.Interruption
import SecdMachine.Proofs.StructuredCode
import SecdMachine.Proofs.Trees

/-!
What code computes, apart from where it is called. A contract says which values a piece of code puts
on the stack it found; environment and dump are then as they were, and so is every pair. A branch
and a call are one rule each, which asks for the contract of the code between SEL and JOIN, or
between AP and RTN.
-/

namespace SecdMachine

namespace Store

inductive Stacked (store : Store) (base : Value) : List Value → Value → Prop
  | base : Stacked store base [] base
  | push {value stack below : Value} {values : List Value}
      (found : store.cell? stack = some ⟨value, below⟩) (tail : Stacked store base values below) :
      Stacked store base (value :: values) stack

variable {store later last : Store} {value base stack : Value} {values : List Value} {cell : Cell}

theorem ListAt.mono {cells : List Address} (list : store.ListAt value cells values)
    (extended : store.Extends later) : later.ListAt value cells values := by
  induction list with
  | nil => exact .nil
  | cons found _ ih => exact .cons (extended.cell? found) ih

theorem extends_saveCall (store : Store) (stack environment control dump : Value) :
    store.Extends (store.saveCall stack environment control dump) :=
  fun _ _ found => (cell?_saveCall_of_lt (lt_size_of_cell? found)).trans found

theorem ext_cell? (same : ∀ address, store.cell? (.pair address) = later.cell? (.pair address)) :
    store = later := by
  obtain ⟨cells⟩ := store
  obtain ⟨others⟩ := later
  exact congrArg Store.mk (Array.ext_getElem? same)

theorem setFirst_cons {address : Nat} (old : address < store.size) (first second : Value) :
    (store.cons first second).2.setFirst address value =
      ((store.setFirst address value).cons first second).2 := by
  apply ext_cell?
  intro other
  by_cases new : other = store.size
  · subst new
    rw [cell?_setFirst_of_ne (by omega), cell?_cons_self, ← @size_setFirst store address value,
      cell?_cons_self]
  · rw [cell?_cons_of_ne (by rwa [size_setFirst]), cell?_setFirst, cell?_setFirst,
      cell?_cons_of_ne new]

theorem setFirst_saveCall {address : Nat} (old : address < store.size)
    (stack environment control dump : Value) :
    (store.saveCall stack environment control dump).setFirst address value =
      (store.setFirst address value).saveCall stack environment control dump := by
  have further : ∀ values, address < (store.list values).2.size := by
    intro values
    rw [size_list]
    omega
  have same : ∀ values, (store.list values).2.setFirst address value =
        ((store.setFirst address value).list values).2 ∧
      (store.list values).1 = ((store.setFirst address value).list values).1 := by
    intro values
    induction values with
    | nil => exact ⟨rfl, rfl⟩
    | cons element values ih =>
        rw [list_cons, list_cons, setFirst_cons (further values), ih.1, ih.2]
        simp [size_list]
  rw [saveCall, setFirst_cons (further _), (same _).1, (same _).2]
  rfl

theorem Stacked.pop (stacked : store.Stacked base (value :: values) stack) :
    ∃ below, store.cell? stack = some ⟨value, below⟩ ∧ store.Stacked base values below := by
  cases stacked with
  | push found tail => exact ⟨_, found, tail⟩

theorem Stacked.mono (stacked : store.Stacked base values stack)
    (extended : store.Extends later) : later.Stacked base values stack := by
  induction stacked with
  | base => exact .base
  | push found _ ih => exact .push (extended.cell? found) ih

end Store

namespace Instruction

theorem Performs.hasDepth {store : Store} {registers : Registers} {opcode : Opcode} {rest : Value}
    {effect : Effect} (performs : Performs store registers opcode rest effect) :
    hasDepth store opcode.stackNeed registers.stack = true := by
  cases performs with
  | ld | ldc | ldf | dum | join | stop => rfl
  | ap top next | cons top next | eq top next | rap top next =>
      simp [Instruction.hasDepth, Opcode.stackNeed, top, next]
  | rtn top | car top | cdr top | atom top => simp [Instruction.hasDepth, Opcode.stackNeed, top]
  | sel _ _ top => simp [Instruction.hasDepth, Opcode.stackNeed, top]
  | arithmetic kind top next =>
      cases opcode <;> simp [Opcode.isArithmetic] at kind <;>
        simp [Instruction.hasDepth, Opcode.stackNeed, top, next]

end Instruction

def Transition (before after : Registers × Store) : Prop :=
  ∃ opcode rest effect,
    Instruction.decode before.2 before.1.control = .ok (opcode, rest) ∧
      Instruction.Performs before.2 before.1 opcode rest effect ∧ effect.halts = false ∧
      effect.perform before.1 before.2 = after

def Transitions : Registers × Store → Registers × Store → Prop :=
  Relation.ReflTransGen Transition

namespace Configuration

def underway (state : Registers × Store) (steps : Nat) : Configuration :=
  ⟨⟨state.1, false, steps, none, 0⟩, state.2⟩

variable {state before later : Registers × Store} {steps : Nat} {opcode : Opcode} {rest : Value}
  {effect : Effect}

theorem step_of_performs {configuration : Configuration}
    (running : configuration.machine.halted = false) (untraced : configuration.machine.trace = none)
    (decoded : Instruction.decode configuration.store configuration.registers.control =
      .ok (opcode, rest))
    (performs : Instruction.Performs configuration.store configuration.registers opcode rest
      effect) :
    configuration.machine.step configuration.store =
      (none, configuration.machine.commit configuration.store effect) := by
  have same : configuration.machine.withTrace none = configuration.machine := by
    rw [← untraced]
    rfl
  have traced : configuration.machine.traced configuration.store opcode =
      (none, configuration.machine.withTrace none) := by
    obtain ⟨⟨registers, halted, steps, trace, limit⟩, store⟩ := configuration
    simp only at untraced
    subst untraced
    rfl
  have worked : configuration.machine.effectOf configuration.store opcode rest = .ok effect :=
    (if_pos performs.hasDepth).trans performs.effect_eq
  rw [step_of_traced running decoded traced, worked, same]

theorem step_underway
    (decoded : Instruction.decode state.2 state.1.control = .ok (opcode, rest))
    (performs : Instruction.Performs state.2 state.1 opcode rest effect) :
    (underway state steps).machine.step (underway state steps).store =
      (none, (underway state steps).machine.commit state.2 effect) :=
  @step_of_performs _ _ _ (underway state steps) rfl rfl decoded performs

theorem next_of_transition (moves : Transition before later) :
    (underway before steps).error? = none ∧
      (underway before steps).next = underway later (steps + 1) := by
  obtain ⟨opcode, rest, effect, decoded, performs, continues, rfl⟩ := moves
  simp only [error?, next, step_underway decoded performs, commit_eq, continues]
  exact ⟨trivial, rfl⟩

theorem after_of_transitions (path : Transitions before later) :
    ∃ calls, (underway before steps).after calls = underway later (steps + calls) ∧
      ∀ call < calls, ((underway before steps).after call).error? = none := by
  induction path with
  | refl => exact ⟨0, rfl, by simp⟩
  | tail _ last ih =>
      obtain ⟨calls, reached, succeeded⟩ := ih
      obtain ⟨succeeds, moved⟩ := next_of_transition last
      refine ⟨calls + 1, ?_, ?_⟩
      · rw [after, reached, moved, Nat.add_assoc]
      · intro call early
        by_cases same : call = calls
        · rw [same, reached, succeeds]
        · exact succeeded call (by omega)

/-- A run that comes to STOP gives what is then on top of the stack. -/
theorem run_of_transitions {value below : Value} (path : Transitions before later)
    (stops : Instruction.decode later.2 later.1.control = .ok (.stop, rest))
    (top : later.2.cell? later.1.stack = some ⟨value, below⟩) :
    ∃ bound, ∀ fuel, bound ≤ fuel →
      ((underway before steps).run fuel {}).outcome = .ok value := by
  obtain ⟨calls, reached, succeeded⟩ := @after_of_transitions _ _ steps path
  have stepped := @step_underway later (steps + calls) _ _ _ stops .stop
  have passed : ∀ call < calls + 1, (underway before steps).Passes {} call := by
    intro call early
    apply passes_of_unlimited rfl
    by_cases same : call = calls
    · rw [same, reached, error?, stepped]
    · exact succeeded call (by omega)
  refine ⟨calls + 1, fun fuel enough => ?_⟩
  have halted : (underway before steps).after (calls + 1) =
      ⟨⟨later.1, true, steps + calls + 1, none, 0⟩, later.2⟩ := by
    rw [after, reached, next, stepped]
    rfl
  rw [← Nat.add_sub_cancel' enough, run_add passed, halted, run_of_halted rfl]
  simp [Machine.result, top]

end Configuration

def Opcode.datum (opcode : Opcode) : Datum :=
  .integer (Int64.ofNat opcode.number)

theorem Store.Denotes.opens {store : Store} {control : Value} {opcode : Opcode} {code : Datum}
    (denotes : store.Denotes control (.pair opcode.datum code)) :
    ∃ rest, store.Opens control opcode rest ∧ store.Denotes rest code := by
  cases denotes with
  | pair found left right =>
      cases left
      exact ⟨_, found, right⟩

theorem Store.Denotes.operand {store : Store} {control : Value} {first code : Datum}
    (denotes : store.Denotes control (.pair first code)) :
    ∃ value rest, store.cell? control = some ⟨value, rest⟩ ∧ store.Denotes value first ∧
      store.Denotes rest code := by
  cases denotes with
  | pair found left right => exact ⟨_, _, found, left, right⟩

theorem Store.Opens.decode_eq {store : Store} {control rest : Value} {opcode : Opcode}
    (opens : store.Opens control opcode rest) :
    Instruction.decode store control = .ok (opcode, rest) :=
  Instruction.decode_eq_ok_iff.mpr ⟨_, opens, opcode.ofNumber?_number⟩

def Store.Saves (store : Store) (dump stack environment control below : Value) : Prop :=
  ∃ entry cells, store.cell? dump = some ⟨entry, below⟩ ∧
    store.ListAt entry cells [stack, environment, control]

theorem Store.Saves.mono {store later : Store} {dump stack environment control below : Value}
    (saves : store.Saves dump stack environment control below) (extended : store.Extends later) :
    later.Saves dump stack environment control below := by
  obtain ⟨entry, cells, found, list⟩ := saves
  exact ⟨entry, cells, extended.cell? found, list.mono extended⟩

theorem Store.saves_saveCall (store : Store) (stack environment control dump : Value) :
    (store.saveCall stack environment control dump).Saves
      (.pair (store.list [stack, environment, control]).2.size) stack environment control dump :=
  ⟨_, _, cell?_cons_self, (store.listAt_list _).mono (extends_cons _ _ dump)⟩

/-- Completing the frame and saving the caller touch different pairs, so the frame may come
first. -/
theorem Effect.perform_callRecursive {store : Store} {closure arguments body : Value} {frame : Nat}
    (applied : store.cell? closure = some ⟨body, .pair frame⟩) (apart : closure ≠ .pair frame)
    (old : frame < store.size) (registers : Registers) (stack environment control : Value) :
    (callRecursive closure arguments frame stack environment control).perform registers store =
      (⟨.nil, .pair frame, body,
          .pair ((store.setFirst frame arguments).list [stack, environment, control]).2.size⟩,
        (store.setFirst frame arguments).saveCall stack environment control registers.dump) := by
  obtain ⟨address, rfl⟩ := Store.eq_pair_of_cell? applied
  have other : frame ≠ address := fun same => apart (congrArg Value.pair same.symm)
  have kept : (store.setFirst frame arguments).cell? (.pair address) = some ⟨body, .pair frame⟩ :=
    (Store.cell?_setFirst_of_ne other).trans applied
  have saved := (store.setFirst frame arguments).extends_saveCall stack environment control
    registers.dump
  have completed := @Store.setFirst_saveCall store arguments frame old stack environment control
    registers.dump
  have code := Store.first_of_cell? (saved.cell? kept)
  have size : ((store.setFirst frame arguments).list [stack, environment, control]).2.size =
      (store.list [stack, environment, control]).2.size := by
    rw [Store.size_list, Store.size_list, Store.size_setFirst]
  rw [← completed] at code ⊢
  rw [size]
  exact congrArg (fun found => ((⟨.nil, .pair frame, found, _⟩ : Registers), _)) code

/-- From its entry on, a piece of code has put values on a stack and has come to the code that is
left. Environment, dump and the pairs of the store are as they were. All code is in `text`. -/
def Computes (text origin : Store) (entry : Registers) (base : Value) (values : List Value)
    (code : Datum) (store : Store) : Prop :=
  ∃ control stack, Transitions (entry, origin)
      ({ entry with stack := stack, control := control }, store) ∧
    text.Extends store ∧ origin.Extends store ∧ store.Stacked base values stack ∧
    text.Denotes control code

theorem Transitions.step {before : Registers × Store} {registers : Registers} {store : Store}
    {opcode : Opcode} {rest : Value} {effect : Effect}
    (path : Transitions before (registers, store))
    (opens : store.Opens registers.control opcode rest)
    (performs : Instruction.Performs store registers opcode rest effect)
    (continues : effect.halts = false) : Transitions before (effect.perform registers store) :=
  Relation.ReflTransGen.tail path ⟨_, _, _, opens.decode_eq, performs, continues, rfl⟩

theorem Transitions.trans {before middle later : Registers × Store}
    (sooner : Transitions before middle) (further : Transitions middle later) :
    Transitions before later :=
  Relation.ReflTransGen.trans sooner further

namespace Computes

variable {text origin store : Store} {entry : Registers} {base : Value}
  {values results : List Value} {code ending : Datum}

theorem enter (written : text.Extends origin) (denotes : text.Denotes entry.control code)
    (stacked : origin.Stacked base values entry.stack) :
    Computes text origin entry base values code origin :=
  ⟨entry.control, entry.stack, .refl, written, origin.extends_refl, stacked, denotes⟩

theorem push {opcode : Opcode} {control stack rest value below after : Value}
    (path : Transitions (entry, origin) ({ entry with stack := stack, control := control }, store))
    (written : text.Extends store) (grown : origin.Extends store)
    (opens : text.Opens control opcode rest)
    (performs : Instruction.Performs store { entry with stack := stack, control := control } opcode
      rest (.push value below after))
    (left : store.Stacked base values below) (denotes : text.Denotes after code) :
    ∃ later, store.Extends later ∧ Computes text origin entry base (value :: values) code later := by
  have wider := store.extends_cons value below
  refine ⟨_, wider, after, _, path.step (written.cell? opens) performs rfl, written.trans wider,
    grown.trans wider, ?_, denotes⟩
  exact .push Store.cell?_cons_self (left.mono wider)

theorem pushPair {opcode : Opcode} {control stack rest first second below after : Value}
    (path : Transitions (entry, origin) ({ entry with stack := stack, control := control }, store))
    (written : text.Extends store) (grown : origin.Extends store)
    (opens : text.Opens control opcode rest)
    (performs : Instruction.Performs store { entry with stack := stack, control := control } opcode
      rest (.pushPair first second below after))
    (left : store.Stacked base values below) (denotes : text.Denotes after code) :
    ∃ later pair, store.Extends later ∧ later.cell? pair = some ⟨first, second⟩ ∧
      Computes text origin entry base (pair :: values) code later := by
  have inner := store.extends_cons first second
  have outer := (store.cons first second).2.extends_cons (.pair store.size) below
  have wider := inner.trans outer
  refine ⟨_, .pair store.size, wider, outer.cell? Store.cell?_cons_self, after, _,
    path.step (written.cell? opens) performs rfl, written.trans wider, grown.trans wider, ?_,
    denotes⟩
  exact .push Store.cell?_cons_self (left.mono wider)

theorem ldc {literal : Datum} {value : Value}
    (computes : Computes text origin entry base values
      (.pair Opcode.ldc.datum (.pair literal code)) store)
    (only : ∀ found, text.Denotes found literal → found = value) :
    ∃ later, store.Extends later ∧ Computes text origin entry base (value :: values) code later := by
  obtain ⟨control, stack, path, written, grown, stacked, denotes⟩ := computes
  obtain ⟨operands, opens, denotes⟩ := denotes.opens
  obtain ⟨found, rest, operand, constant, denotes⟩ := denotes.operand
  rw [only found constant] at operand
  exact push path written grown opens (.ldc (written.cell? operand)) stacked denotes

theorem ld {frame position : Int64} {value : Value}
    (computes : Computes text origin entry base values
      (.pair Opcode.ld.datum (.pair (.pair (.integer frame) (.integer position)) code)) store)
    (located : store.first (Instruction.walk store position.toInt.toNat
      (store.first (Instruction.walk store frame.toInt.toNat entry.environment))) = value) :
    ∃ later, store.Extends later ∧ Computes text origin entry base (value :: values) code later := by
  obtain ⟨control, stack, path, written, grown, stacked, denotes⟩ := computes
  obtain ⟨operands, opens, denotes⟩ := denotes.opens
  obtain ⟨address, rest, operand, place, denotes⟩ := denotes.operand
  obtain ⟨_, _, place, ⟨⟩, ⟨⟩⟩ := place.operand
  have found : Instruction.locate store entry.environment address = .ok value := by
    simp only [Instruction.locate, written.cell? place, located]
  exact push path written grown opens (.ld (written.cell? operand) found) stacked denotes

theorem ldf {body : Datum}
    (computes : Computes text origin entry base values (.pair Opcode.ldf.datum (.pair body code))
      store) :
    ∃ later closure control, store.Extends later ∧
      later.cell? closure = some ⟨control, entry.environment⟩ ∧ text.Denotes control body ∧
      Computes text origin entry base (closure :: values) code later := by
  obtain ⟨control, stack, path, written, grown, stacked, denotes⟩ := computes
  obtain ⟨operands, opens, denotes⟩ := denotes.opens
  obtain ⟨found, rest, operand, function, denotes⟩ := denotes.operand
  obtain ⟨later, closure, wider, made, computes⟩ := pushPair path written grown opens
    (.ldf (written.cell? operand)) stacked denotes
  exact ⟨later, closure, found, wider, made, function, computes⟩

theorem cons {first second : Value}
    (computes : Computes text origin entry base (first :: second :: values)
      (.pair Opcode.cons.datum code) store) :
    ∃ later pair, store.Extends later ∧ later.cell? pair = some ⟨first, second⟩ ∧
      Computes text origin entry base (pair :: values) code later := by
  obtain ⟨control, stack, path, written, grown, stacked, denotes⟩ := computes
  obtain ⟨below, top, stacked⟩ := stacked.pop
  obtain ⟨_, next, stacked⟩ := stacked.pop
  obtain ⟨rest, opens, denotes⟩ := denotes.opens
  exact pushPair path written grown opens (.cons top next) stacked denotes

theorem eq {first second : Value}
    (computes : Computes text origin entry base (first :: second :: values)
      (.pair Opcode.eq.datum code) store) :
    ∃ later, store.Extends later ∧ Computes text origin entry base
      (.ofBool (Instruction.eqAtoms first second) :: values) code later := by
  obtain ⟨control, stack, path, written, grown, stacked, denotes⟩ := computes
  obtain ⟨below, top, stacked⟩ := stacked.pop
  obtain ⟨_, next, stacked⟩ := stacked.pop
  obtain ⟨rest, opens, denotes⟩ := denotes.opens
  exact push path written grown opens (.eq top next) stacked denotes

theorem arithmetic {opcode : Opcode} {first second : Int64} {value : Value}
    (computes : Computes text origin entry base (.integer first :: .integer second :: values)
      (.pair opcode.datum code) store)
    (kind : opcode.isArithmetic = true)
    (computed : Instruction.arithmetic opcode second first = .ok value) :
    ∃ later, store.Extends later ∧ Computes text origin entry base (value :: values) code later := by
  obtain ⟨control, stack, path, written, grown, stacked, denotes⟩ := computes
  obtain ⟨below, top, stacked⟩ := stacked.pop
  obtain ⟨_, next, stacked⟩ := stacked.pop
  obtain ⟨rest, opens, denotes⟩ := denotes.opens
  exact push path written grown opens (.arithmetic kind top next computed) stacked denotes

/-- SEL, one of its branches, and the JOIN at the end of that branch. -/
theorem branch {name : String} {first second : Datum}
    (computes : Computes text origin entry base (.symbol name :: values)
      (.pair Opcode.sel.datum (.pair first (.pair second code))) store)
    (taken : ∀ start inner, store.Extends inner → start.environment = entry.environment →
      Computes text inner start base values
        (if Instruction.isTrue name then first else second) inner →
      ∃ later, Computes text inner start base results (.pair Opcode.join.datum ending) later) :
    ∃ later, store.Extends later ∧ Computes text origin entry base results code later := by
  obtain ⟨control, stack, path, written, grown, stacked, denotes⟩ := computes
  obtain ⟨below, top, stacked⟩ := stacked.pop
  obtain ⟨operands, opens, denotes⟩ := denotes.opens
  obtain ⟨left, more, operand, leftDenotes, denotes⟩ := denotes.operand
  obtain ⟨right, after, other, rightDenotes, denotes⟩ := denotes.operand
  have chosen : text.Denotes (if Instruction.isTrue name then left else right)
      (if Instruction.isTrue name then first else second) := by
    split
    · exact leftDenotes
    · exact rightDenotes
  have selected := path.step (written.cell? opens)
    (.sel (written.cell? operand) (written.cell? other) top) rfl
  have wider := store.extends_cons after entry.dump
  obtain ⟨later, control', stack', inside, written', grown', stacked', denotes'⟩ :=
    taken ⟨below, entry.environment, if Instruction.isTrue name then left else right,
      .pair store.size⟩ _ wider rfl (enter (written.trans wider) chosen (stacked.mono wider))
  obtain ⟨rest, opens, _⟩ := denotes'.opens
  have joined := (selected.trans inside).step (written'.cell? opens)
    (.join (grown'.cell? Store.cell?_cons_self)) rfl
  exact ⟨later, wider.trans grown', after, stack', joined, written',
    (grown.trans wider).trans grown', stacked', denotes⟩

theorem returns {stack environment control dump value : Value}
    (computes : Computes text origin entry base (value :: results) (.pair Opcode.rtn.datum ending)
      store)
    (saves : origin.Saves entry.dump stack environment control dump) :
    Transitions (entry, origin)
      (⟨.pair store.size, environment, control, dump⟩, (store.cons value stack).2) := by
  obtain ⟨_, _, path, written, grown, stacked, denotes⟩ := computes
  obtain ⟨below, top, _⟩ := stacked.pop
  obtain ⟨rest, opens, _⟩ := denotes.opens
  obtain ⟨saved, cells, popped, list⟩ := saves.mono grown
  exact path.step (written.cell? opens)
    (.rtn top popped (Instruction.callFrame_of_listAt list)) rfl

/-- AP, the body of the closure, and the RTN at its end. -/
theorem apply {closure arguments body environment value : Value} {function : Datum}
    (computes : Computes text origin entry base (closure :: arguments :: values)
      (.pair Opcode.ap.datum code) store)
    (applied : store.cell? closure = some ⟨body, environment⟩)
    (defined : text.Denotes body function)
    (returned : ∀ start inner, store.Extends inner →
      inner.cell? start.environment = some ⟨arguments, environment⟩ →
      Computes text inner start .nil [] function inner →
      ∃ later, Computes text inner start .nil (value :: results) (.pair Opcode.rtn.datum ending)
        later) :
    ∃ later, store.Extends later ∧ Computes text origin entry base (value :: values) code later := by
  obtain ⟨control, stack, path, written, grown, stacked, denotes⟩ := computes
  obtain ⟨below, top, stacked⟩ := stacked.pop
  obtain ⟨below', next, stacked⟩ := stacked.pop
  obtain ⟨rest, opens, denotes⟩ := denotes.opens
  have called := path.step (written.cell? opens) (.ap top next applied) rfl
  have saved := store.extends_saveCall below' entry.environment rest entry.dump
  have framed := (store.saveCall below' entry.environment rest entry.dump).extends_cons arguments
    environment
  have wider := saved.trans framed
  obtain ⟨later, computes⟩ := returned ⟨.nil, _, body, _⟩ _ wider Store.cell?_cons_self
    (enter (written.trans wider) defined .base)
  have back := called.trans (computes.returns
    ((store.saves_saveCall below' entry.environment rest entry.dump).mono framed))
  obtain ⟨_, _, _, written', grown', _⟩ := computes
  have made := later.extends_cons value below'
  have still := (wider.trans grown').trans made
  exact ⟨_, still, rest, _, back, written'.trans made, grown.trans still,
    .push Store.cell?_cons_self (stacked.mono still), denotes⟩

/-- DUM, the definitions, RAP, the body of the closure that RAP applies, and the RTN at its end. The
only pair that changes is the frame that DUM made. -/
theorem letrec {value : Value} {definitions : Datum}
    (computes : Computes text origin entry base values (.pair Opcode.dum.datum definitions) store)
    (recurs : ∀ start inner frame, store.Extends inner → start.environment = .pair frame →
      inner.cell? (.pair frame) = some ⟨.nil, entry.environment⟩ →
      Computes text inner start start.stack [] definitions inner →
      ∃ later closure arguments body opening function,
        Computes text inner start start.stack [closure, arguments]
          (.pair Opcode.rap.datum code) later ∧
        later.cell? closure = some ⟨body, .pair frame⟩ ∧
        text.Denotes body (.pair opening function) ∧
        ∀ start' inner', (later.setFirst frame arguments).Extends inner' →
          start'.environment = .pair frame →
          Computes text inner' start' .nil [] (.pair opening function) inner' →
          ∃ last, Computes text inner' start' .nil (value :: results)
            (.pair Opcode.rtn.datum ending) last) :
    ∃ later, store.Extends later ∧ Computes text origin entry base (value :: values) code later := by
  obtain ⟨control, stack, path, written, grown, stacked, denotes⟩ := computes
  obtain ⟨rest, opens, denotes⟩ := denotes.opens
  have extended := path.step (written.cell? opens) .dum rfl
  have wider := store.extends_cons .nil entry.environment
  obtain ⟨later, closure, arguments, body, opening, function, computes, applied, defined,
    returned⟩ := recurs ⟨stack, .pair store.size, rest, entry.dump⟩ _ store.size wider rfl
      Store.cell?_cons_self (enter (written.trans wider) denotes .base)
  obtain ⟨_, _, inside, written', grown', stacked', denotes⟩ := computes
  obtain ⟨below, top, stacked'⟩ := stacked'.pop
  obtain ⟨_, next, ⟨⟩⟩ := stacked'.pop
  obtain ⟨after, opens, denotes⟩ := denotes.opens
  have frame := grown'.cell? (@Store.cell?_cons_self store .nil entry.environment)
  -- A closure that begins with code is not the frame, which begins with NIL.
  have apart : closure ≠ .pair store.size := by
    rintro rfl
    rw [frame] at applied
    injection applied with same
    rw [← (Cell.mk.inj same).1] at defined
    cases defined
  have called := (extended.trans inside).step (written'.cell? opens)
    (.rap top next applied frame frame) rfl
  rw [Effect.perform_callRecursive applied apart (Store.lt_size_of_cell? frame)] at called
  have saved := (later.setFirst store.size arguments).extends_saveCall stack entry.environment after
    entry.dump
  have kept : store.Extends (later.setFirst store.size arguments) :=
    (wider.trans grown').setFirst (Nat.le_refl _)
  obtain ⟨last, computes⟩ := returned ⟨.nil, .pair store.size, body, _⟩ _ saved rfl
    (enter ((written.trans kept).trans saved) defined .base)
  have back := called.trans (computes.returns ((later.setFirst store.size arguments).saves_saveCall
    stack entry.environment after entry.dump))
  obtain ⟨_, _, _, written', grown', _⟩ := computes
  have made := last.extends_cons value stack
  have still := ((kept.trans saved).trans grown').trans made
  exact ⟨_, still, after, _, back, written'.trans made, grown.trans still,
    .push Store.cell?_cons_self (stacked.mono still), denotes⟩

theorem outcome {value : Value} (steps : Nat)
    (computes : Computes text origin entry base (value :: results) (.pair Opcode.stop.datum ending)
      store) :
    ∃ bound, ∀ fuel, bound ≤ fuel →
      ((Configuration.underway (entry, origin) steps).run fuel {}).outcome = .ok value := by
  obtain ⟨_, _, path, written, _, stacked, denotes⟩ := computes
  obtain ⟨below, top, _⟩ := stacked.pop
  obtain ⟨rest, opens, _⟩ := denotes.opens
  exact Configuration.run_of_transitions path (Store.Opens.decode_eq (written.cell? opens)) top

end Computes

end SecdMachine
