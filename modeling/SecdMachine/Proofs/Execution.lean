import SecdMachine.Machine
import SecdMachine.Proofs.Cells

/-!
What one instruction does, said once. `Performs` lists for each opcode what it needs and which effect
it then has; `effect_eq_ok_iff` says that this is all `Instruction.effect` can do. A `Configuration`
is a machine with its store, and `after` follows it through any number of calls of `step`. A call
that reports an error leaves all as it was, but for the trace.
-/

namespace SecdMachine

theorem bind_eq_ok {ε α β : Type} {action : Except ε α} {next : α → Except ε β} {result : β} :
    (action >>= next) = .ok result ↔ ∃ value, action = .ok value ∧ next value = .ok result := by
  cases action <;> simp [bind, Except.bind]

def Opcode.isArithmetic : Opcode → Bool
  | add => true
  | sub => true
  | mul => true
  | div => true
  | rem => true
  | leq => true
  | _ => false

def Effect.target : Effect → Option Address
  | callRecursive _ _ environment _ _ _ => some environment
  | _ => none

namespace Instruction

/-- What each instruction needs and the effect it then has, given the code after its opcode. -/
inductive Performs (store : Store) (registers : Registers) : Opcode → Value → Effect → Prop
  | ld {rest address value after}
      (operand : store.cell? rest = some ⟨address, after⟩)
      (located : locate store registers.environment address = .ok value) :
      Performs store registers .ld rest (.push value registers.stack after)
  | ldc {rest value after} (operand : store.cell? rest = some ⟨value, after⟩) :
      Performs store registers .ldc rest (.push value registers.stack after)
  | ldf {rest body after} (operand : store.cell? rest = some ⟨body, after⟩) :
      Performs store registers .ldf rest
        (.pushPair body registers.environment registers.stack after)
  | ap {rest closure below arguments stack cell}
      (top : store.cell? registers.stack = some ⟨closure, below⟩)
      (next : store.cell? below = some ⟨arguments, stack⟩)
      (applied : store.cell? closure = some cell) :
      Performs store registers .ap rest (.call cell.first arguments cell.second stack rest)
  | rtn {rest value below entry dump stack environment control}
      (top : store.cell? registers.stack = some ⟨value, below⟩)
      (popped : store.cell? registers.dump = some ⟨entry, dump⟩)
      (frame : callFrame store entry = .ok (stack, environment, control)) :
      Performs store registers .rtn rest (.return value stack environment control dump)
  | dum {rest} : Performs store registers .dum rest (.extend rest)
  | rap {rest closure below arguments stack body environment placeholder outer}
      (top : store.cell? registers.stack = some ⟨closure, below⟩)
      (next : store.cell? below = some ⟨arguments, stack⟩)
      (applied : store.cell? closure = some ⟨body, .pair environment⟩)
      (completed : store.cell? (.pair environment) = some placeholder)
      (around : store.cell? registers.environment = some outer) :
      Performs store registers .rap rest
        (.callRecursive closure arguments environment stack outer.second rest)
  | sel {rest first more second after name stack}
      (operand : store.cell? rest = some ⟨first, more⟩)
      (other : store.cell? more = some ⟨second, after⟩)
      (top : store.cell? registers.stack = some ⟨.symbol name, stack⟩) :
      Performs store registers .sel rest
        (.branch (if isTrue name then first else second) stack after)
  | join {rest control dump} (popped : store.cell? registers.dump = some ⟨control, dump⟩) :
      Performs store registers .join rest (.resume control dump)
  | car {rest value stack cell} (top : store.cell? registers.stack = some ⟨value, stack⟩)
      (found : store.cell? value = some cell) :
      Performs store registers .car rest (.push cell.first stack rest)
  | cdr {rest value stack cell} (top : store.cell? registers.stack = some ⟨value, stack⟩)
      (found : store.cell? value = some cell) :
      Performs store registers .cdr rest (.push cell.second stack rest)
  | atom {rest value stack} (top : store.cell? registers.stack = some ⟨value, stack⟩) :
      Performs store registers .atom rest (.push (.ofBool value.isAtom) stack rest)
  | cons {rest first below second stack}
      (top : store.cell? registers.stack = some ⟨first, below⟩)
      (next : store.cell? below = some ⟨second, stack⟩) :
      Performs store registers .cons rest (.pushPair first second stack rest)
  | eq {rest first below second stack}
      (top : store.cell? registers.stack = some ⟨first, below⟩)
      (next : store.cell? below = some ⟨second, stack⟩) :
      Performs store registers .eq rest (.push (.ofBool (eqAtoms first second)) stack rest)
  | arithmetic {opcode rest below stack value} {first second : Int64}
      (kind : opcode.isArithmetic = true)
      (top : store.cell? registers.stack = some ⟨.integer first, below⟩)
      (next : store.cell? below = some ⟨.integer second, stack⟩)
      (computed : Instruction.arithmetic opcode second first = .ok value) :
      Performs store registers opcode rest (.push value stack rest)
  | stop {rest} : Performs store registers .stop rest .halt

variable {store : Store} {registers : Registers} {rest value more : Value}

theorem operand_eq_ok :
    operand store rest = .ok (value, more) ↔ store.cell? rest = some ⟨value, more⟩ := by
  cases found : store.cell? rest with
  | none => simp [operand, found]
  | some cell => cases cell; simp [operand, found]

theorem pop_eq_ok {missing : String} :
    pop store rest missing = .ok (value, more) ↔ store.cell? rest = some ⟨value, more⟩ := by
  cases found : store.cell? rest with
  | none => simp [pop, found]
  | some cell => cases cell; simp [pop, found]

theorem popDump_eq_ok :
    popDump store rest = .ok (value, more) ↔ store.cell? rest = some ⟨value, more⟩ := by
  cases found : store.cell? rest with
  | none => simp [popDump, found]
  | some cell => cases cell; simp [popDump, found]

theorem popCall_eq_ok {call : Call} :
    popCall store rest = .ok call ↔ ∃ below,
      store.cell? rest = some ⟨call.closure, below⟩ ∧
      store.cell? below = some ⟨call.arguments, call.stack⟩ ∧
      store.cell? call.closure = some call.cell := by
  simp only [popCall, bind_eq_ok]
  constructor
  · rintro ⟨⟨closure, below⟩, top, ⟨arguments, stack⟩, next, taken⟩
    rw [pop_eq_ok] at top next
    dsimp only at next taken
    split at taken
    · rename_i cell found
      simp only [Except.ok.injEq] at taken
      subst call
      exact ⟨below, top, next, found⟩
    · simp at taken
  · rintro ⟨below, top, next, found⟩
    refine ⟨⟨call.closure, below⟩, pop_eq_ok.mpr top, ⟨call.arguments, call.stack⟩,
      pop_eq_ok.mpr next, ?_⟩
    simp [found]

theorem popIntegers_eq_ok {top below : Int64} {stack : Value} :
    popIntegers store rest = .ok (top, below, stack) ↔ ∃ middle,
      store.cell? rest = some ⟨.integer top, middle⟩ ∧
      store.cell? middle = some ⟨.integer below, stack⟩ := by
  simp only [popIntegers, bind_eq_ok]
  constructor
  · rintro ⟨⟨first, middle⟩, found, ⟨second, last⟩, next, taken⟩
    rw [pop_eq_ok] at found next
    dsimp only at next taken
    split at taken
    · simp only [Except.ok.injEq, Prod.mk.injEq] at taken
      obtain ⟨rfl, rfl, rfl⟩ := taken
      exact ⟨middle, found, next⟩
    · simp at taken
    · simp at taken
  · rintro ⟨middle, found, next⟩
    exact ⟨⟨.integer top, middle⟩, pop_eq_ok.mpr found, ⟨.integer below, stack⟩,
      pop_eq_ok.mpr next, rfl⟩

theorem performs_of_effect {opcode : Opcode} {result : Effect}
    (worked : effect store registers opcode rest = .ok result) :
    Performs store registers opcode rest result := by
  cases opcode with
  | ld =>
      simp only [effect, bind_eq_ok, Prod.exists, operand_eq_ok] at worked
      obtain ⟨address, after, operand, value, located, done⟩ := worked
      cases done
      exact .ld operand located
  | ldc =>
      simp only [effect, bind_eq_ok, Prod.exists, operand_eq_ok] at worked
      obtain ⟨value, after, operand, done⟩ := worked
      cases done
      exact .ldc operand
  | ldf =>
      simp only [effect, bind_eq_ok, Prod.exists, operand_eq_ok] at worked
      obtain ⟨body, after, operand, done⟩ := worked
      cases done
      exact .ldf operand
  | ap =>
      simp only [effect, bind_eq_ok, popCall_eq_ok] at worked
      obtain ⟨call, ⟨below, top, next, applied⟩, done⟩ := worked
      cases done
      exact .ap top next applied
  | rtn =>
      simp only [effect, bind_eq_ok, Prod.exists, pop_eq_ok, popDump_eq_ok] at worked
      obtain ⟨value, below, top, entry, dump, popped, stack, environment, control, frame, done⟩ :=
        worked
      cases done
      exact .rtn top popped frame
  | dum =>
      cases worked
      exact .dum
  | rap =>
      simp only [effect, bind_eq_ok, popCall_eq_ok] at worked
      obtain ⟨⟨closure, ⟨body, environment⟩, arguments, stack⟩, ⟨below, top, next, applied⟩,
        done⟩ := worked
      dsimp only at top next applied done
      split at done
      · rename_i completed
        split at done
        · rename_i around
          cases done
          exact .rap top next applied completed around
        · simp at done
      · simp at done
  | sel =>
      simp only [effect, bind_eq_ok, Prod.exists, operand_eq_ok, pop_eq_ok] at worked
      obtain ⟨first, more, operand, second, after, other, condition, stack, top, done⟩ := worked
      split at done
      · cases done
        exact .sel operand other top
      · simp at done
  | join =>
      simp only [effect, bind_eq_ok, Prod.exists, popDump_eq_ok] at worked
      obtain ⟨control, dump, popped, done⟩ := worked
      cases done
      exact .join popped
  | car =>
      simp only [effect, bind_eq_ok, Prod.exists, pop_eq_ok] at worked
      obtain ⟨value, stack, top, done⟩ := worked
      split at done
      · rename_i found
        cases done
        exact .car top found
      · simp at done
  | cdr =>
      simp only [effect, bind_eq_ok, Prod.exists, pop_eq_ok] at worked
      obtain ⟨value, stack, top, done⟩ := worked
      split at done
      · rename_i found
        cases done
        exact .cdr top found
      · simp at done
  | atom =>
      simp only [effect, bind_eq_ok, Prod.exists, pop_eq_ok] at worked
      obtain ⟨value, stack, top, done⟩ := worked
      cases done
      exact .atom top
  | cons =>
      simp only [effect, bind_eq_ok, Prod.exists, pop_eq_ok] at worked
      obtain ⟨first, below, top, second, stack, next, done⟩ := worked
      cases done
      exact .cons top next
  | eq =>
      simp only [effect, bind_eq_ok, Prod.exists, pop_eq_ok] at worked
      obtain ⟨first, below, top, second, stack, next, done⟩ := worked
      cases done
      exact .eq top next
  | stop =>
      cases worked
      exact .stop
  | add | sub | mul | div | rem | leq =>
      simp only [effect, bind_eq_ok, Prod.exists, popIntegers_eq_ok] at worked
      obtain ⟨first, second, stack, ⟨below, top, next⟩, value, computed, done⟩ := worked
      cases done
      exact .arithmetic rfl top next computed

theorem Performs.effect_eq {opcode : Opcode} {result : Effect}
    (performs : Performs store registers opcode rest result) :
    effect store registers opcode rest = .ok result := by
  cases performs with
  | ld operand located =>
      simp [effect, operand_eq_ok.mpr operand, located, bind, Except.bind, pure, Except.pure]
  | ldc operand | ldf operand =>
      simp [effect, operand_eq_ok.mpr operand, bind, Except.bind, pure, Except.pure]
  | ap top next applied =>
      have taken : popCall store registers.stack = .ok ⟨_, _, _, _⟩ :=
        popCall_eq_ok.mpr ⟨_, top, next, applied⟩
      simp [effect, taken, bind, Except.bind, pure, Except.pure]
  | rtn top popped frame =>
      simp [effect, pop_eq_ok.mpr top, popDump_eq_ok.mpr popped, frame, bind, Except.bind, pure,
        Except.pure]
  | dum => rfl
  | rap top next applied completed around =>
      have taken : popCall store registers.stack = .ok ⟨_, ⟨_, _⟩, _, _⟩ :=
        popCall_eq_ok.mpr ⟨_, top, next, applied⟩
      simp [effect, taken, completed, around, bind, Except.bind, pure, Except.pure]
  | sel operand other top =>
      simp [effect, operand_eq_ok.mpr operand, operand_eq_ok.mpr other, pop_eq_ok.mpr top, bind,
        Except.bind, pure, Except.pure]
  | join popped =>
      simp [effect, popDump_eq_ok.mpr popped, bind, Except.bind, pure, Except.pure]
  | car top found | cdr top found =>
      simp [effect, pop_eq_ok.mpr top, found, bind, Except.bind, pure, Except.pure]
  | atom top => simp [effect, pop_eq_ok.mpr top, bind, Except.bind, pure, Except.pure]
  | cons top next | eq top next =>
      simp [effect, pop_eq_ok.mpr top, pop_eq_ok.mpr next, bind, Except.bind, pure, Except.pure]
  | arithmetic kind top next computed =>
      have taken := popIntegers_eq_ok.mpr ⟨_, top, next⟩
      cases opcode <;> simp [Opcode.isArithmetic] at kind <;>
        simp [effect, taken, computed, bind, Except.bind, pure, Except.pure]
  | stop => rfl

/-- `Performs` is exactly what working out an effect can give. -/
theorem effect_eq_ok_iff {opcode : Opcode} {result : Effect} :
    effect store registers opcode rest = .ok result ↔
      Performs store registers opcode rest result :=
  ⟨performs_of_effect, Performs.effect_eq⟩

theorem decode_eq_ok_iff {control : Value} {opcode : Opcode} :
    decode store control = .ok (opcode, rest) ↔ ∃ number,
      store.cell? control = some ⟨.integer number, rest⟩ ∧
        Opcode.ofNumber? number.toInt = some opcode := by
  constructor
  · intro decoded
    simp only [decode] at decoded
    split at decoded
    · simp at decoded
    · rename_i cell found
      obtain ⟨first, second⟩ := cell
      dsimp only at decoded
      split at decoded
      · rename_i number
        split at decoded
        · rename_i known
          cases decoded
          exact ⟨number, found, known⟩
        · simp at decoded
      · simp at decoded
  · rintro ⟨number, found, known⟩
    simp [decode, found, known]

end Instruction

def Machine.withTrace (machine : Machine) (trace : Option Sink) : Machine :=
  { machine with trace := trace }

structure Configuration where
  machine : Machine
  store : Store

namespace Configuration

def start (store : Store) (program arguments : Value) (trace : Option Sink) : Configuration :=
  match Machine.load store program arguments with
  | (machine, store) => ⟨machine.withTrace trace, store⟩

def registers (configuration : Configuration) : Registers :=
  configuration.machine.registers

def error? (configuration : Configuration) : Option MachineError :=
  (configuration.machine.step configuration.store).1

def next (configuration : Configuration) : Configuration :=
  match configuration.machine.step configuration.store with
  | (_, machine, store) => ⟨machine, store⟩

def after (configuration : Configuration) : Nat → Configuration
  | 0 => configuration
  | calls + 1 => (configuration.after calls).next

def depth (configuration : Configuration) : Nat :=
  configuration.machine.dumpDepth configuration.store

def Completes (configuration : Configuration) (opcode : Opcode) : Prop :=
  configuration.error? = none ∧ ∃ rest,
    Instruction.decode configuration.store configuration.registers.control = .ok (opcode, rest)

structure Executes (configuration : Configuration) (opcode : Opcode) (rest : Value)
    (effect : Effect) : Prop where
  running : configuration.machine.halted = false
  decoded : Instruction.decode configuration.store configuration.registers.control =
    .ok (opcode, rest)
  performs : Instruction.Performs configuration.store configuration.registers opcode rest effect
  registers : configuration.next.registers =
    (effect.perform configuration.registers configuration.store).1
  store : configuration.next.store =
    (effect.perform configuration.registers configuration.store).2
  halted : configuration.next.machine.halted = effect.halts
  steps : configuration.next.machine.steps = configuration.machine.steps + 1

/-- Everything a call of `step` can report, and why. -/
inductive Stops (configuration : Configuration) : MachineError → Prop
  | halted (stopped : configuration.machine.halted = true) : Stops configuration .halted
  | undecoded {cause} (running : configuration.machine.halted = false)
      (failed : Instruction.decode configuration.store configuration.registers.control =
        .error cause) :
      Stops configuration (configuration.machine.faultOf none cause)
  | untraced {opcode rest problem} (running : configuration.machine.halted = false)
      (decoded : Instruction.decode configuration.store configuration.registers.control =
        .ok (opcode, rest))
      (refused : (configuration.machine.traced configuration.store opcode).1 = some problem) :
      Stops configuration (@MachineError.traceRefused problem)
  | unperformed {opcode rest cause} (running : configuration.machine.halted = false)
      (decoded : Instruction.decode configuration.store configuration.registers.control =
        .ok (opcode, rest))
      (failed : configuration.machine.effectOf configuration.store opcode rest = .error cause) :
      Stops configuration (configuration.machine.faultOf (some opcode) cause)

theorem traced_eq (machine : Machine) (store : Store) (opcode : Opcode) :
    ∃ failure trace, machine.traced store opcode = (failure, machine.withTrace trace) ∧
      (machine.trace = none → trace = none) := by
  obtain ⟨registers, halted, steps, trace, limit⟩ := machine
  cases trace with
  | none => exact ⟨none, none, rfl, fun _ => rfl⟩
  | some sink => exact ⟨_, _, rfl, fun absent => by simp at absent⟩

theorem performs_of_effectOf {machine : Machine} {store : Store} {opcode : Opcode} {rest : Value}
    {effect : Effect} (worked : machine.effectOf store opcode rest = .ok effect) :
    Instruction.Performs store machine.registers opcode rest effect := by
  simp only [Machine.effectOf] at worked
  split at worked
  · exact Instruction.effect_eq_ok_iff.mp worked
  · simp at worked

theorem commit_eq (machine : Machine) (store : Store) (effect : Effect) :
    machine.commit store effect =
      (⟨(effect.perform machine.registers store).1, effect.halts, machine.steps + 1, machine.trace,
        machine.limit⟩, (effect.perform machine.registers store).2) := rfl

theorem step_of_halted {machine : Machine} {store : Store} (stopped : machine.halted = true) :
    machine.step store = (some .halted, machine, store) := by
  simp [Machine.step, stopped]

theorem step_of_undecoded {machine : Machine} {store : Store} {cause : Cause}
    (running : machine.halted = false)
    (failed : Instruction.decode store machine.registers.control = .error cause) :
    machine.step store = (some (machine.faultOf none cause), machine, store) := by
  simp [Machine.step, running, failed]

theorem step_of_refused {machine : Machine} {store : Store} {opcode : Opcode} {rest : Value}
    {trace : Option Sink} {problem : String} (running : machine.halted = false)
    (decoded : Instruction.decode store machine.registers.control = .ok (opcode, rest))
    (refused : machine.traced store opcode = (some problem, machine.withTrace trace)) :
    machine.step store =
      (some (@MachineError.traceRefused problem), machine.withTrace trace, store) := by
  simp [Machine.step, running, decoded, refused]

theorem step_of_traced {machine : Machine} {store : Store} {opcode : Opcode} {rest : Value}
    {trace : Option Sink} (running : machine.halted = false)
    (decoded : Instruction.decode store machine.registers.control = .ok (opcode, rest))
    (traced : machine.traced store opcode = (none, machine.withTrace trace)) :
    machine.step store =
      match machine.effectOf store opcode rest with
      | .error cause =>
          (some (machine.faultOf (some opcode) cause), machine.withTrace trace, store)
      | .ok effect => (none, (machine.withTrace trace).commit store effect) := by
  have same : (machine.withTrace trace).effectOf store opcode rest =
    machine.effectOf store opcode rest := rfl
  simp only [Machine.step, running, Bool.false_eq_true, if_false, decoded, traced, same]
  cases machine.effectOf store opcode rest <;> rfl

/-- A call of `step` either reports an error and changes nothing but the trace, or executes an
instruction. -/
theorem step_cases (configuration : Configuration) :
    (∃ error trace, configuration.error? = some error ∧ configuration.Stops error ∧
      (configuration.machine.trace = none → trace = none) ∧
      configuration.next = ⟨configuration.machine.withTrace trace, configuration.store⟩) ∨
    (configuration.error? = none ∧
      ∃ opcode rest effect, configuration.Executes opcode rest effect) := by
  obtain ⟨machine, store⟩ := configuration
  cases stopped : machine.halted with
  | true =>
      have stepped := @step_of_halted machine store stopped
      refine Or.inl ⟨.halted, machine.trace, ?_, .halted stopped, id, ?_⟩
      · simp [error?, stepped]
      · simp [next, stepped, Machine.withTrace]
  | false =>
      cases decoded : Instruction.decode store machine.registers.control with
      | error cause =>
          have stepped := step_of_undecoded stopped decoded
          refine Or.inl ⟨_, machine.trace, ?_, .undecoded stopped decoded, id, ?_⟩
          · simp [error?, stepped]
          · simp [next, stepped, Machine.withTrace]
      | ok found =>
          obtain ⟨opcode, rest⟩ := found
          obtain ⟨failure, trace, traced, silent⟩ := traced_eq machine store opcode
          cases failure with
          | some problem =>
              have stepped := step_of_refused stopped decoded traced
              refine Or.inl ⟨@MachineError.traceRefused problem, trace, ?_, .untraced stopped decoded ?_, silent, ?_⟩
              · simp [error?, stepped]
              · simp [traced]
              · simp [next, stepped]
          | none =>
              have stepped := step_of_traced stopped decoded traced
              cases worked : machine.effectOf store opcode rest with
              | error cause =>
                  rw [worked] at stepped
                  refine Or.inl ⟨_, trace, ?_, .unperformed stopped decoded worked, silent, ?_⟩
                  · simp [error?, stepped]
                  · simp [next, stepped]
              | ok effect =>
                  rw [worked] at stepped
                  refine Or.inr ⟨by simp [error?, stepped], opcode, rest, effect, ?_⟩
                  refine ⟨stopped, decoded, performs_of_effectOf worked, ?_, ?_, ?_, ?_⟩ <;>
                    simp [next, registers, stepped, commit_eq, Machine.withTrace]

theorem Completes.executes {configuration : Configuration} {opcode : Opcode}
    (completes : configuration.Completes opcode) :
    ∃ rest effect, configuration.Executes opcode rest effect := by
  obtain ⟨succeeded, rest, decoded⟩ := completes
  rcases configuration.step_cases with ⟨error, _, failed, _⟩ | ⟨_, opcode', rest', effect, executes⟩
  · rw [failed] at succeeded
    simp at succeeded
  · have same := decoded.symm.trans executes.decoded
    simp only [Except.ok.injEq, Prod.mk.injEq] at same
    obtain ⟨rfl, rfl⟩ := same
    exact ⟨rest, effect, executes⟩

theorem completes_of_executes {configuration : Configuration} {opcode : Opcode} {rest : Value}
    {effect : Effect} (succeeded : configuration.error? = none)
    (executes : configuration.Executes opcode rest effect) : configuration.Completes opcode :=
  ⟨succeeded, rest, executes.decoded⟩

theorem Executes.opcode_eq {configuration : Configuration} {opcode other : Opcode} {rest : Value}
    {effect : Effect} (executes : configuration.Executes opcode rest effect)
    (completes : configuration.Completes other) : opcode = other := by
  obtain ⟨_, more, decoded⟩ := completes
  rw [executes.decoded] at decoded
  cases decoded
  rfl

theorem completes_iff {configuration : Configuration} {opcode : Opcode} :
    configuration.Completes opcode ↔ configuration.error? = none ∧
      (Instruction.decode configuration.store configuration.registers.control).toOption.map
        Prod.fst = some opcode := by
  apply and_congr_right
  intro _
  cases Instruction.decode configuration.store configuration.registers.control with
  | error cause => simp [Except.toOption]
  | ok found =>
      obtain ⟨other, rest⟩ := found
      simp [Except.toOption]

instance (configuration : Configuration) (opcode : Opcode) :
    Decidable (configuration.Completes opcode) :=
  decidable_of_iff _ completes_iff.symm

theorem after_add (configuration : Configuration) (earlier later : Nat) :
    configuration.after (earlier + later) = (configuration.after earlier).after later := by
  induction later with
  | zero => rfl
  | succ later ih =>
      rw [Nat.add_succ, after, after, ih]

theorem next_of_error {configuration : Configuration} {error : MachineError}
    (failed : configuration.error? = some error) :
    configuration.Stops error ∧ ∃ trace, (configuration.machine.trace = none → trace = none) ∧
      configuration.next = ⟨configuration.machine.withTrace trace, configuration.store⟩ := by
  rcases configuration.step_cases with ⟨other, trace, reported, stops, silent, unchanged⟩ |
    ⟨succeeded, _⟩
  · rw [failed] at reported
    cases reported
    exact ⟨stops, trace, silent, unchanged⟩
  · rw [failed] at succeeded
    simp at succeeded

theorem next_eq_self {configuration : Configuration} {error : MachineError}
    (untraced : configuration.machine.trace = none)
    (failed : configuration.error? = some error) : configuration.next = configuration := by
  obtain ⟨_, trace, silent, unchanged⟩ := next_of_error failed
  obtain ⟨machine, store⟩ := configuration
  obtain ⟨registers, halted, steps, sink, limit⟩ := machine
  rw [unchanged, silent untraced]
  simp only at untraced
  rw [untraced]
  rfl

theorem after_eq_self {configuration : Configuration} {error : MachineError}
    (untraced : configuration.machine.trace = none)
    (failed : configuration.error? = some error) (calls : Nat) :
    configuration.after calls = configuration := by
  induction calls with
  | zero => rfl
  | succ calls ih =>
      rw [after, ih]
      exact next_eq_self untraced failed

end Configuration

end SecdMachine
