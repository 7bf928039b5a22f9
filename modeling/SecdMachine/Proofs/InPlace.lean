import SecdMachine.Workbench
import SecdMachine.Proofs.Execution

/-!
Instructions executed in place. Each one first only looks, which may end in a fault, and then writes,
which cannot; so whatever ends in an error has written nothing but the trace. This is proved of the
in-place instructions themselves, and they are shown to do what `Machine.step` does.
-/

namespace SecdMachine

namespace Workbench

structure Unchanged (bench after : Workbench) : Prop where
  registers : after.machine.registers = bench.machine.registers
  halted : after.machine.halted = bench.machine.halted
  steps : after.machine.steps = bench.machine.steps
  store : after.store = bench.store

def Shows (bench : Workbench) (error : MachineError) : Prop :=
  ∀ fault, error = .fault fault →
    fault.registers = bench.machine.registers ∧ fault.step = bench.machine.steps

def Still {α : Type} (work : Work α) : Prop :=
  ∀ bench, (∃ value after, work.run bench = .ok value after ∧ Unchanged bench after) ∨
    ∃ error after, work.run bench = .error error after ∧ Unchanged bench after ∧ Shows bench error

def Sure {α : Type} (work : Work α) : Prop :=
  ∀ bench, ∃ value after, work.run bench = .ok value after

def Atomic {α : Type} (work : Work α) : Prop :=
  ∀ bench error after, work.run bench = .error error after →
    Unchanged bench after ∧ Shows bench error

theorem unchanged_refl (bench : Workbench) : Unchanged bench bench :=
  ⟨rfl, rfl, rfl, rfl⟩

theorem Unchanged.trans {between after : Workbench} (first : Unchanged bench between)
    (second : Unchanged between after) : Unchanged bench after :=
  ⟨second.registers.trans first.registers, second.halted.trans first.halted,
    second.steps.trans first.steps, second.store.trans first.store⟩

theorem Unchanged.shows {after : Workbench} {error : MachineError}
    (unchanged : Unchanged bench after) (shows' : Shows after error) : Shows bench error := by
  intro fault same
  obtain ⟨registers, steps⟩ := shows' fault same
  exact ⟨registers.trans unchanged.registers, steps.trans unchanged.steps⟩

section

variable {α β : Type} {work : Work α} {next : α → Work β} {bench : Workbench}

theorem run_bind_of_ok {value : α} {after : Workbench} (ran : work.run bench = .ok value after) :
    (work >>= next).run bench = (next value).run after := by
  simp only [EStateM.run] at ran ⊢
  simp only [bind, EStateM.bind, ran]

theorem run_bind_of_error {error : MachineError} {after : Workbench}
    (ran : work.run bench = .error error after) :
    (work >>= next).run bench = .error error after := by
  simp only [EStateM.run] at ran ⊢
  simp only [bind, EStateM.bind, ran]

theorem run_get_bind (next : Workbench → Work β) (bench : Workbench) :
    (get >>= next).run bench = (next bench).run bench :=
  rfl

theorem run_modify_bind (change : Workbench → Workbench) (next : Unit → Work β)
    (bench : Workbench) : (modify change >>= next).run bench = (next ()).run (change bench) :=
  rfl

theorem Sure.atomic (sure : Sure work) : Atomic work := by
  intro bench error after failed
  obtain ⟨value, final, ran⟩ := sure bench
  cases ran.symm.trans failed

theorem Still.bind (still : Still work) (more : ∀ value, Still (next value)) :
    Still (work >>= next) := by
  intro bench
  rcases still bench with ⟨value, between, ran, same⟩ | ⟨error, after, ran, same, shown⟩
  · rw [run_bind_of_ok ran]
    rcases more value between with ⟨result, after, ran, also⟩ | ⟨error, after, ran, also, shown⟩
    · exact Or.inl ⟨result, after, ran, same.trans also⟩
    · exact Or.inr ⟨error, after, ran, same.trans also, same.shows shown⟩
  · exact Or.inr ⟨error, after, run_bind_of_error ran, same, shown⟩

/-- Looking first does not spoil what has changed nothing when it fails. -/
theorem Still.atomic_bind (still : Still work) (rest : ∀ value, Atomic (next value)) :
    Atomic (work >>= next) := by
  intro bench error after failed
  rcases still bench with ⟨value, between, ran, same⟩ | ⟨problem, final, ran, same, shown⟩
  · rw [run_bind_of_ok ran] at failed
    obtain ⟨also, shown⟩ := rest value between error after failed
    exact ⟨same.trans also, same.shows shown⟩
  · rw [run_bind_of_error ran] at failed
    cases failed
    exact ⟨same, shown⟩

/-- Nor does writing last, if that cannot fail. -/
theorem Atomic.bind_sure (atomic : Atomic work) (sure : ∀ value, Sure (next value)) :
    Atomic (work >>= next) := by
  intro bench error after failed
  cases ran : work.run bench with
  | ok value between =>
      rw [run_bind_of_ok ran] at failed
      obtain ⟨result, final, finished⟩ := sure value between
      cases finished.symm.trans failed
  | error problem final =>
      rw [run_bind_of_error ran] at failed
      cases failed
      exact atomic bench error after ran

theorem still_get : Still (get : Work Workbench) :=
  fun bench => Or.inl ⟨bench, bench, rfl, unchanged_refl bench⟩

theorem Still.atomic (still : Still work) : Atomic work := by
  intro bench error after failed
  rcases still bench with ⟨value, final, ran, _⟩ | ⟨problem, final, ran, same, shown⟩
  · cases ran.symm.trans failed
  · cases ran.symm.trans failed
    exact ⟨same, shown⟩

/-- Work that leaves the workbench alone and comes to what is found in the store. -/
def Finds (work : Work α) (found : Store → Except Cause α) : Prop :=
  ∀ bench, work.run bench =
    match found bench.store with
    | .ok value => .ok value bench
    | .error cause => .error (bench.machine.faultOf bench.opcode cause) bench

variable {found : Store → Except Cause α}

theorem Finds.still (finds : Finds work found) : Still work := by
  intro bench
  have ran := finds bench
  cases came : found bench.store with
  | ok value =>
      rw [came] at ran
      exact Or.inl ⟨value, bench, ran, unchanged_refl bench⟩
  | error cause =>
      rw [came] at ran
      refine Or.inr ⟨_, bench, ran, unchanged_refl bench, ?_⟩
      rintro fault ⟨⟩
      exact ⟨rfl, rfl⟩

theorem Finds.atomic_bind (finds : Finds work found) (rest : ∀ value, Atomic (next value)) :
    Atomic (work >>= next) :=
  finds.still.atomic_bind rest

theorem Finds.run_bind (finds : Finds work found) (bench : Workbench) :
    (work >>= next).run bench =
      match found bench.store with
      | .ok value => (next value).run bench
      | .error cause => .error (bench.machine.faultOf bench.opcode cause) bench := by
  have ran := finds bench
  cases came : found bench.store with
  | ok value =>
      rw [came] at ran
      exact run_bind_of_ok ran
  | error cause =>
      rw [came] at ran
      exact run_bind_of_error ran

theorem finds_pure (value : α) : Finds (pure value) (fun _ => .ok value) :=
  fun _ => rfl

theorem finds_fault (cause : Cause) : Finds (fault cause : Work α) (fun _ => .error cause) :=
  fun _ => rfl

section

variable (value stack dump entry environment address rest : Value) (cause : Cause)

theorem run_cellOr_bind (next : Cell → Work β) (bench : Workbench) :
    (cellOr value cause >>= next).run bench =
      match bench.store.cell? value with
      | some cell => (next cell).run bench
      | none => .error (bench.machine.faultOf bench.opcode cause) bench := by
  have ran : (cellOr value cause).run bench = (match bench.store.cell? value with
    | some cell => pure cell
    | none => fault cause : Work Cell).run bench := rfl
  cases found : bench.store.cell? value with
  | some cell => exact run_bind_of_ok (ran.trans (by rw [found]; rfl))
  | none => exact run_bind_of_error (ran.trans (by rw [found]; rfl))

theorem still_cellOr : Still (cellOr value cause) := by
  refine still_get.bind fun bench => ?_
  split
  · exact (finds_pure _).still
  · exact (finds_fault cause).still

theorem finds_operand : Finds (operand value) (Instruction.operand · value) := by
  intro bench
  rw [operand, run_cellOr_bind]
  simp only [Instruction.operand]
  cases bench.store.cell? value <;> rfl

theorem finds_pop (missing : String) :
    Finds (pop stack missing) (Instruction.pop · stack missing) := by
  intro bench
  rw [pop, run_cellOr_bind]
  simp only [Instruction.pop]
  cases bench.store.cell? stack <;> rfl

theorem finds_popDump : Finds (popDump dump) (Instruction.popDump · dump) := by
  intro bench
  rw [popDump, run_cellOr_bind]
  simp only [Instruction.popDump]
  cases bench.store.cell? dump <;> rfl

theorem finds_popCall : Finds (popCall stack) (fun store =>
    (Instruction.popCall store stack).map fun call =>
      (call.closure, call.arguments, call.stack)) := by
  intro bench
  rw [popCall, (finds_pop _ _).run_bind]
  simp only [Instruction.popCall]
  cases Instruction.pop bench.store stack "closure" with
  | error cause => rfl
  | ok top =>
      obtain ⟨closure, below⟩ := top
      simp only
      rw [(finds_pop _ _).run_bind]
      conv_rhs => simp only [bind, Except.bind]
      cases Instruction.pop bench.store below "argument list" with
      | error cause => rfl
      | ok next =>
          simp only
          rw [run_cellOr_bind]
          cases bench.store.cell? closure <;> rfl

theorem finds_callFrame : Finds (callFrame entry) (Instruction.callFrame · entry) := by
  intro bench
  rw [callFrame, run_cellOr_bind]
  simp only [Instruction.callFrame]
  cases bench.store.cell? entry with
  | none => rfl
  | some stack =>
      simp only
      rw [run_cellOr_bind]
      cases bench.store.cell? stack.second with
      | none => rfl
      | some environment =>
          simp only
          rw [run_cellOr_bind]
          cases bench.store.cell? environment.second with
          | none => rfl
          | some control =>
              simp only
              cases control.second.isNil <;> rfl

theorem finds_popIntegers : Finds (popIntegers stack) (Instruction.popIntegers · stack) := by
  intro bench
  rw [popIntegers, (finds_pop _ _).run_bind]
  simp only [Instruction.popIntegers]
  cases Instruction.pop bench.store stack "integer operand" with
  | error cause => rfl
  | ok top =>
      obtain ⟨top, below⟩ := top
      simp only
      rw [(finds_pop _ _).run_bind]
      simp only [bind, Except.bind]
      cases Instruction.pop bench.store below "integer operand" with
      | error cause => rfl
      | ok second =>
          obtain ⟨second, below⟩ := second
          simp only
          cases top with
          | integer top => cases second <;> rfl
          | _ => rfl

theorem finds_arithmetic (opcode : Opcode) (second top : Int64) :
    Finds (arithmetic opcode second top) (fun _ => Instruction.arithmetic opcode second top) := by
  cases opcode with
  | div | rem =>
      simp only [arithmetic, Instruction.arithmetic]
      split
      · exact finds_fault _
      · exact finds_pure _
  | _ => exact finds_pure _

theorem finds_locate :
    Finds (locate environment address) (Instruction.locate · environment address) := by
  intro bench
  rw [locate, run_cellOr_bind]
  simp only [Instruction.locate]
  cases bench.store.cell? address with
  | none => rfl
  | some cell =>
      obtain ⟨first, second⟩ := cell
      simp only
      cases first with
      | integer frame => cases second <;> rfl
      | _ => rfl

theorem finds_second : Finds (second value) (fun store => .ok (store.second value)) :=
  fun _ => rfl

/-- Every instruction looks first and writes last. -/
theorem atomic_execute (opcode : Opcode) (rest : Value) : Atomic (execute opcode rest) := by
  refine still_get.atomic_bind fun bench => ?_
  obtain ⟨stack, environment, control, dump⟩ := bench.machine.registers
  cases opcode with
  | ld =>
      exact (finds_operand _).atomic_bind fun _ => (finds_locate _ _).atomic_bind fun _ =>
        Sure.atomic fun _ => ⟨_, _, rfl⟩
  | ldc | ldf =>
      exact (finds_operand _).atomic_bind fun _ => Sure.atomic fun _ => ⟨_, _, rfl⟩
  | ap => exact (finds_popCall _).atomic_bind fun _ => Sure.atomic fun _ => ⟨_, _, rfl⟩
  | rtn =>
      exact (finds_pop _ _).atomic_bind fun _ => (finds_popDump _).atomic_bind fun _ =>
        (finds_callFrame _).atomic_bind fun _ => Sure.atomic fun _ => ⟨_, _, rfl⟩
  | dum => exact Sure.atomic fun _ => ⟨_, _, rfl⟩
  | rap =>
      refine (finds_popCall _).atomic_bind fun _ => (finds_second _).atomic_bind fun frames =>
        (still_cellOr _ _).atomic_bind fun _ => (still_cellOr _ _).atomic_bind fun _ => ?_
      cases frames <;> exact Sure.atomic fun _ => ⟨_, _, rfl⟩
  | sel =>
      refine (finds_operand _).atomic_bind fun _ => (finds_operand _).atomic_bind fun _ =>
        (finds_pop _ _).atomic_bind fun ⟨condition, below⟩ => ?_
      cases condition with
      | symbol name =>
          dsimp only
          cases Instruction.isTrue name <;> exact Sure.atomic fun _ => ⟨_, _, rfl⟩
      | _ => exact (finds_fault _).still.atomic
  | join => exact (finds_popDump _).atomic_bind fun _ => Sure.atomic fun _ => ⟨_, _, rfl⟩
  | car | cdr =>
      exact (finds_pop _ _).atomic_bind fun _ => (still_cellOr _ _).atomic_bind fun _ =>
        Sure.atomic fun _ => ⟨_, _, rfl⟩
  | atom => exact (finds_pop _ _).atomic_bind fun _ => Sure.atomic fun _ => ⟨_, _, rfl⟩
  | cons | eq =>
      exact (finds_pop _ _).atomic_bind fun _ => (finds_pop _ _).atomic_bind fun _ =>
        Sure.atomic fun _ => ⟨_, _, rfl⟩
  | add | sub | mul | div | rem | leq =>
      exact (finds_popIntegers _).atomic_bind fun _ =>
        (finds_arithmetic _ _ _).atomic_bind fun _ => Sure.atomic fun _ => ⟨_, _, rfl⟩
  | stop => exact Sure.atomic fun _ => ⟨_, _, rfl⟩

theorem still_recognise (opcode : Option Opcode) :
    Still (modify fun bench => { bench with opcode := opcode } : Work Unit) :=
  fun bench => Or.inl ⟨(), { bench with opcode := opcode }, rfl, rfl, rfl, rfl, rfl⟩

theorem run_trace (opcode : Opcode) (bench : Workbench) :
    (trace opcode).run bench =
      match bench.machine.traced bench.store opcode with
      | (none, machine) => .ok () { bench with machine := machine }
      | (some problem, machine) =>
          .error (@MachineError.traceRefused problem) { bench with machine := machine } := by
  rw [trace, run_get_bind]
  rcases bench.machine.traced bench.store opcode with ⟨_ | problem, machine⟩ <;> rfl

theorem still_trace (opcode : Opcode) : Still (trace opcode) := by
  intro bench
  have ran := run_trace opcode bench
  obtain ⟨failure, sink, traced, _⟩ :=
    Configuration.traced_eq bench.machine bench.store opcode
  rw [traced] at ran
  cases failure with
  | none => exact Or.inl ⟨_, _, ran, rfl, rfl, rfl, rfl⟩
  | some problem => exact Or.inr ⟨_, _, ran, ⟨rfl, rfl, rfl, rfl⟩, fun fault same => by cases same⟩

theorem still_halted : Still (throw .halted : Work Unit) :=
  fun bench => Or.inr ⟨.halted, bench, rfl, unchanged_refl bench, fun _ same => by cases same⟩

theorem atomic_step : Atomic step := by
  refine still_get.atomic_bind fun bench => ?_
  split
  · exact still_halted.atomic
  · refine (still_recognise none).atomic_bind fun _ => still_get.atomic_bind fun _ =>
      (still_cellOr _ _).atomic_bind fun cell => ?_
    split
    · split
      · refine (still_recognise _).atomic_bind fun _ => (still_trace _).atomic_bind fun _ =>
          still_get.atomic_bind fun _ => ?_
        split
        · exact (atomic_execute _ _).bind_sure fun _ _ => ⟨_, _, rfl⟩
        · exact (finds_fault _).still.atomic
      · exact (finds_fault _).still.atomic
    · exact (finds_fault _).still.atomic

def committed (bench : Workbench) (effect : Effect) : Workbench :=
  { bench with
    machine := { bench.machine with
      registers := (effect.perform bench.machine.registers bench.store).1
      halted := effect.halts }
    store := (effect.perform bench.machine.registers bench.store).2 }

/-- Work that commits the effect worked out from the registers, or faults for the cause why there is
none. -/
def Commits (bench : Workbench) (work : Work Unit) (result : Except Cause Effect) : Prop :=
  work.run bench =
    match result with
    | .ok effect => .ok () (bench.committed effect)
    | .error cause => .error (bench.machine.faultOf bench.opcode cause) bench

theorem Finds.commits {next : α → Work Unit} {more : α → Except Cause Effect}
    (finds : Finds work found) (rest : ∀ value, Commits bench (next value) (more value)) :
    Commits bench (work >>= next) (found bench.store >>= more) := by
  unfold Commits
  rw [finds.run_bind]
  cases found bench.store with
  | error cause => rfl
  | ok value => exact rest value

theorem commits_cellOr {next : Cell → Work Unit} {more : Cell → Except Cause Effect}
    (rest : ∀ cell, bench.store.cell? value = some cell → Commits bench (next cell) (more cell)) :
    Commits bench (cellOr value cause >>= next)
      (match bench.store.cell? value with
        | some cell => more cell
        | none => .error cause) := by
  unfold Commits
  rw [run_cellOr_bind]
  cases here : bench.store.cell? value with
  | none => rfl
  | some cell => exact rest cell here

theorem commits_of_cell {next : Cell → Work Unit} {cell : Cell} {result : Except Cause Effect}
    (here : bench.store.cell? value = some cell) (rest : Commits bench (next cell) result) :
    Commits bench (cellOr value cause >>= next) result := by
  unfold Commits
  rw [run_cellOr_bind, here]
  exact rest

theorem commits_second {next : Value → Work Unit} {result : Except Cause Effect}
    (rest : Commits bench (next (bench.store.second value)) result) :
    Commits bench (second value >>= next) result :=
  rest

theorem commits_popCall {next : Value × Value × Value → Work Unit}
    {more : Instruction.Call → Except Cause Effect}
    (rest : ∀ call, bench.store.cell? call.closure = some call.cell →
      Commits bench (next (call.closure, call.arguments, call.stack)) (more call)) :
    Commits bench (popCall stack >>= next) (Instruction.popCall bench.store stack >>= more) := by
  unfold Commits
  rw [(finds_popCall stack).run_bind]
  cases came : Instruction.popCall bench.store stack with
  | error cause => rfl
  | ok call =>
      obtain ⟨_, _, _, applied⟩ := Instruction.popCall_eq_ok.mp came
      exact rest call applied

/-- An instruction executed in place has the effect worked out from the registers. -/
theorem commits_execute (bench : Workbench) (opcode : Opcode) (rest : Value)
    (running : bench.machine.halted = false) :
    Commits bench (execute opcode rest)
      (Instruction.effect bench.store bench.machine.registers opcode rest) := by
  obtain ⟨⟨⟨stack, environment, control, dump⟩, halted, steps, trace, limit⟩, store, current⟩ :=
    bench
  simp only at running
  subst running
  unfold Commits
  rw [execute, run_get_bind]
  cases opcode with
  | ld =>
      exact (finds_operand rest).commits fun operand =>
        (finds_locate environment operand.1).commits fun _ => rfl
  | ldc | ldf => exact (finds_operand rest).commits fun _ => rfl
  | ap =>
      refine commits_popCall _ fun call applied => ?_
      -- The closure is looked at after pairs have been added, which does not change it.
      have listed : store.Extends (store.list [call.stack, environment, rest]).2 :=
        Store.extends_consReversed _
      have saved := listed.trans
        (Store.extends_cons _ (store.list [call.stack, environment, rest]).1 dump)
      have second := Store.second_of_cell? (saved.cell? applied)
      have called := saved.trans (Store.extends_cons _ call.arguments call.cell.second)
      have first := Store.first_of_cell? (called.cell? applied)
      simp only
      rw [← first, ← second]
      rfl
  | rtn =>
      exact (finds_pop stack _).commits fun _ => (finds_popDump dump).commits fun saved =>
        (finds_callFrame saved.1).commits fun _ => rfl
  | dum => rfl
  | rap =>
      refine commits_popCall _ fun call applied => ?_
      obtain ⟨closure, ⟨code, frames⟩, arguments, below⟩ := call
      refine commits_second _ ?_
      rw [Store.second_of_cell? applied]
      cases frames with
      | pair placeholder =>
          simp only
          cases here : store.cell? (.pair placeholder) with
          | none =>
              unfold Commits
              rw [run_cellOr_bind, here]
          | some _ =>
              refine commits_of_cell _ _ here ?_
              refine commits_cellOr environment _ fun outer around => ?_
              rw [← Store.second_of_cell? around]
              rfl
      | _ => rfl
  | sel =>
      refine (finds_operand rest).commits fun yes => (finds_operand yes.2).commits fun no =>
        (finds_pop stack _).commits fun popped => ?_
      obtain ⟨condition, below⟩ := popped
      cases condition with
      | symbol name =>
          simp only
          cases Instruction.isTrue name <;> rfl
      | _ => rfl
  | join => exact (finds_popDump dump).commits fun _ => rfl
  | car | cdr =>
      exact (finds_pop stack _).commits fun popped =>
        commits_cellOr popped.1 _ fun _ _ => rfl
  | atom => exact (finds_pop stack _).commits fun _ => rfl
  | cons | eq =>
      exact (finds_pop stack _).commits fun popped =>
        (finds_pop popped.2 _).commits fun _ => rfl
  | add | sub | mul | div | rem | leq =>
      exact (finds_popIntegers stack).commits fun _ =>
        (finds_arithmetic _ _ _).commits fun _ => rfl
  | stop => rfl

end

end

def reported : EStateM.Result MachineError Workbench Unit → Option MachineError × Machine × Store
  | .ok _ after => (none, after.machine, after.store)
  | .error error after => (some error, after.machine, after.store)

theorem decode_of_not_integer {store : Store} {control value rest : Value}
    (found : store.cell? control = some ⟨value, rest⟩) (other : ∀ number, value ≠ .integer number) :
    Instruction.decode store control = .error (.opcodeNotInteger value) := by
  cases value with
  | integer number => exact absurd rfl (other number)
  | _ => simp only [Instruction.decode, found]

theorem reported_decoded {machine : Machine} {store : Store} {opcode : Opcode} {rest : Value}
    (running : machine.halted = false)
    (decoded : Instruction.decode store machine.registers.control = .ok (opcode, rest)) :
    reported ((do
      trace opcode
      let bench ← get
      if Instruction.hasDepth bench.store opcode.stackNeed bench.machine.registers.stack then
        execute opcode rest
        modify fun bench => { bench with machine.steps := bench.machine.steps + 1 }
      else fault (.stackTooShort opcode) : Work Unit).run ⟨machine, store, some opcode⟩) =
    machine.step store := by
  have ran := run_trace opcode ⟨machine, store, some opcode⟩
  obtain ⟨failure, sink, traced, _⟩ := Configuration.traced_eq machine store opcode
  simp only [traced] at ran
  cases failure with
  | some problem =>
      rw [run_bind_of_error ran, Configuration.step_of_refused running decoded traced]
      rfl
  | none =>
      rw [run_bind_of_ok ran, run_get_bind, Configuration.step_of_traced running decoded traced]
      have same : (machine.withTrace sink).registers.stack = machine.registers.stack := rfl
      simp only [Machine.effectOf, same]
      split
      next deep =>
        have executed :=
          commits_execute ⟨machine.withTrace sink, store, some opcode⟩ opcode rest running
        have registers : (machine.withTrace sink).registers = machine.registers := rfl
        simp only [registers] at executed
        cases worked : Instruction.effect store machine.registers opcode rest with
        | error cause =>
            rw [worked] at executed
            rw [run_bind_of_error executed]
            rfl
        | ok effect =>
            rw [worked] at executed
            rw [run_bind_of_ok executed]
            rfl
      next shallow => rfl

/-- A call in place is a call of `Machine.step`. -/
theorem reported_step (bench : Workbench) :
    reported (step.run bench) = bench.machine.step bench.store := by
  obtain ⟨machine, store, current⟩ := bench
  cases stopped : machine.halted with
  | true =>
      rw [step, run_get_bind, Configuration.step_of_halted stopped]
      simp only [stopped, if_true]
      rfl
  | false =>
      rw [step, run_get_bind]
      simp only [stopped, Bool.false_eq_true, if_false]
      rw [run_modify_bind, run_get_bind, run_cellOr_bind]
      cases found : store.cell? machine.registers.control with
      | none =>
          have undecoded : Instruction.decode store machine.registers.control =
              .error (.controlEnded machine.registers.control) := by
            simp [Instruction.decode, found]
          rw [Configuration.step_of_undecoded stopped undecoded]
          rfl
      | some cell =>
          obtain ⟨first, rest⟩ := cell
          simp only
          cases first with
          | integer number =>
              simp only
              cases known : Opcode.ofNumber? number.toInt with
              | none =>
                  have undecoded : Instruction.decode store machine.registers.control =
                      .error (.opcodeUndefined number) := by
                    simp [Instruction.decode, found, known]
                  rw [Configuration.step_of_undecoded stopped undecoded]
                  rfl
              | some opcode =>
                  have decoded : Instruction.decode store machine.registers.control =
                      .ok (opcode, rest) := by
                    simp [Instruction.decode, found, known]
                  rw [run_modify_bind]
                  exact reported_decoded stopped decoded
          | absent | empty | symbol _ | pair _ =>
              rw [Configuration.step_of_undecoded stopped
                (decode_of_not_integer found fun _ same => by cases same)]
              rfl

def next (bench : Workbench) : Workbench :=
  match step.run bench with
  | .ok _ after => after
  | .error _ after => after

def after (bench : Workbench) : Nat → Workbench
  | 0 => bench
  | calls + 1 => (bench.after calls).next

theorem run_step_of_error {bench other last : Workbench} {error : MachineError}
    (machine : other.machine = bench.machine) (store : other.store = bench.store)
    (failed : step.run bench = .error error last) :
    ∃ final, step.run other = .error error final ∧ final.machine = last.machine ∧
      final.store = last.store := by
  have reports := reported_step other
  rw [machine, store, ← reported_step bench, failed] at reports
  cases ran : step.run other with
  | ok value final =>
      rw [ran] at reports
      simp [reported] at reports
  | error problem final =>
      rw [ran] at reports
      simp only [reported, Prod.mk.injEq, Option.some.injEq] at reports
      obtain ⟨rfl, same⟩ := reports
      exact ⟨final, rfl, same⟩

theorem machine_after {bench last : Workbench} {error : MachineError}
    (untraced : bench.machine.trace = none) (failed : step.run bench = .error error last)
    (calls : Nat) :
    (bench.after calls).machine = bench.machine ∧ (bench.after calls).store = bench.store := by
  have stepped := reported_step bench
  rw [failed] at stepped
  have kept := @Configuration.next_eq_self ⟨bench.machine, bench.store⟩ error untraced
    (congrArg Prod.fst stepped).symm
  simp only [Configuration.next, ← stepped, reported, Configuration.mk.injEq] at kept
  induction calls with
  | zero => exact ⟨rfl, rfl⟩
  | succ calls ih =>
      obtain ⟨final, again, machine, store⟩ := run_step_of_error ih.1 ih.2 failed
      have next : bench.after (calls + 1) = final := by
        simp only [after, Workbench.next, again]
      rw [next]
      exact ⟨machine.trans kept.1, store.trans kept.2⟩

/-- A call in place is one of `Machine.step`. Whatever error it reports, the registers, the flag, the
count of instructions and every cell are as before; a fault shows them as they were; and without a
trace every further call reports the same fault in the same words. -/
theorem failed_step_changes_nothing (bench : Workbench) :
    reported (step.run bench) = bench.machine.step bench.store ∧
    ∀ error last, step.run bench = .error error last →
      last.machine.registers = bench.machine.registers ∧
      last.machine.halted = bench.machine.halted ∧
      last.machine.steps = bench.machine.steps ∧
      (∀ address, last.store.cell? (.pair address) = bench.store.cell? (.pair address)) ∧
      ∀ fault, error = .fault fault →
        fault.registers = bench.machine.registers ∧ fault.step = bench.machine.steps ∧
        (bench.machine.trace = none → ∀ calls,
          (∃ final, step.run (bench.after calls) = .error (.fault fault) final) ∧
          fault.cause.detail (bench.after calls).store = fault.cause.detail bench.store) := by
  refine ⟨reported_step bench, fun error last failed => ?_⟩
  obtain ⟨unchanged, shown⟩ := atomic_step bench error last failed
  refine ⟨unchanged.registers, unchanged.halted, unchanged.steps,
    fun address => by rw [unchanged.store], ?_⟩
  rintro fault rfl
  obtain ⟨registers, steps⟩ := shown fault rfl
  refine ⟨registers, steps, fun untraced calls => ?_⟩
  obtain ⟨machine, store⟩ := machine_after untraced failed calls
  obtain ⟨final, again, _⟩ := run_step_of_error machine store failed
  exact ⟨⟨final, again⟩, by rw [store]⟩

def callWithoutFrame : Workbench where
  machine := { registers := ⟨.pair 4, .nil, .pair 0, .nil⟩, steps := 17 }
  store := ⟨#[⟨.integer 7, .nil⟩, ⟨.nil, .nil⟩, ⟨.nil, .pair 1⟩, ⟨.pair 1, .nil⟩, ⟨.pair 2, .pair 3⟩]⟩

theorem callWithoutFrame_changes_nothing :
    let fault : Fault :=
      ⟨.environmentWithoutFrame, some .rap, 17, callWithoutFrame.machine.registers⟩
    ∃ last, step.run callWithoutFrame = .error (.fault fault) last ∧
      last.machine.registers = callWithoutFrame.machine.registers ∧
      last.store.cell? (.pair 1) = some ⟨.nil, .nil⟩ ∧
      ∃ final, step.run (callWithoutFrame.after 1000) = .error (.fault fault) final := by
  intro fault
  have failed : step.run callWithoutFrame =
      .error (.fault fault) { callWithoutFrame with opcode := some .rap } := rfl
  obtain ⟨_, changes⟩ := failed_step_changes_nothing callWithoutFrame
  obtain ⟨registers, _, _, cells, again⟩ := changes _ _ failed
  exact ⟨_, failed, registers, cells 1, ((again fault rfl).2.2 rfl 1000).1⟩

end Workbench

end SecdMachine
