import SecdMachine.Instruction

/-!
The machine. `Machine.step` executes one instruction and `Machine.run` executes instructions until
the machine stops, cannot go on, or is told to stop. Every error leaves registers, step count and
store as they were.
-/

namespace SecdMachine

inductive Cancellation where
  | canceled
  | deadline
  deriving DecidableEq, Repr

namespace Cancellation

def message : Cancellation → String
  | canceled => "context canceled"
  | deadline => "context deadline exceeded"

end Cancellation

/-- Whoever may tell a run to stop. It agrees to go on a number of times, or always. -/
structure Supervisor where
  patience : Option Nat := none
  reason : Cancellation := .canceled
  deriving DecidableEq, Repr

namespace Supervisor

def ask : Supervisor → Option Cancellation × Supervisor
  | ⟨none, reason⟩ => (none, ⟨none, reason⟩)
  | ⟨some 0, reason⟩ => (some reason, ⟨some 0, reason⟩)
  | ⟨some (patience + 1), reason⟩ => (none, ⟨some patience, reason⟩)

end Supervisor

/-- Why a machine gave no result. `exhausted` means that the bound set from outside on the length of
a run was reached. -/
inductive MachineError where
  | fault (details : Fault)
  | halted
  | traceRefused {problem : String}
  | stepLimit (steps : Nat)
  | cancelled (steps : Nat) (reason : Cancellation)
  | notHalted
  | exhausted
  deriving DecidableEq, Repr

namespace MachineError

def message (store : Store) (run : String) : MachineError → String
  | .fault details => details.message store
  | halted => "secd: machine halted"
  | @traceRefused problem => "secd: trace: " ++ problem
  | stepLimit steps =>
      "secd: run " ++ run ++ ": secd: step limit exceeded after " ++ toString steps ++ " steps"
  | cancelled steps reason =>
      "secd: run " ++ run ++ " cancelled after " ++ toString steps ++ " steps: " ++ reason.message
  | notHalted => "secd: machine " ++ run ++ " has not halted"
  | exhausted => "secd: run " ++ run ++ " is too long"

end MachineError

/-- A machine: its registers, whether it has stopped, how many instructions it has completed, where
its trace goes, and how many instructions a run may bring it to, if any limit is set. -/
structure Machine where
  registers : Registers
  halted : Bool := false
  steps : Nat := 0
  trace : Option Sink := none
  limit : Int := 0
  deriving DecidableEq, Repr

namespace Machine

def load (store : Store) (program arguments : Value) : Machine × Store :=
  match store.list [arguments] with
  | (stack, store) => ({ registers := ⟨stack, .nil, program, .nil⟩ }, store)

def dumpDepth (machine : Machine) (store : Store) : Nat :=
  store.length machine.registers.dump

def faultOf (machine : Machine) (opcode : Option Opcode) (cause : Cause) : MachineError :=
  .fault ⟨cause, opcode, machine.steps, machine.registers⟩

def traceHeading (opcode : Opcode) : String :=
  "op: " ++ toString opcode.number ++ " " ++ opcode.name ++ "\n"

def traceTo (registers : Registers) (store : Store) (opcode : Opcode) (sink : Sink) :
    Option String × Sink :=
  match sink.write (traceHeading opcode) with
  | (some problem, sink) => (some problem, sink)
  | (none, sink) => registers.printTo store sink

def traced (store : Store) (opcode : Opcode) : Machine → Option String × Machine
  | ⟨registers, halted, steps, none, limit⟩ => (none, ⟨registers, halted, steps, none, limit⟩)
  | ⟨registers, halted, steps, some sink, limit⟩ =>
      match traceTo registers store opcode sink with
      | (problem, sink) => (problem, ⟨registers, halted, steps, some sink, limit⟩)

def effectOf (machine : Machine) (store : Store) (opcode : Opcode) (rest : Value) :
    Except Cause Effect :=
  if Instruction.hasDepth store opcode.stackNeed machine.registers.stack then
    Instruction.effect store machine.registers opcode rest
  else .error (.stackTooShort opcode)

def commit (store : Store) (effect : Effect) : Machine → Machine × Store
  | ⟨registers, _, steps, trace, limit⟩ =>
      match effect.perform registers store with
      | (registers, store) => (⟨registers, effect.halts, steps + 1, trace, limit⟩, store)

def step (machine : Machine) (store : Store) : Option MachineError × Machine × Store :=
  if machine.halted then (some .halted, machine, store)
  else
    match Instruction.decode store machine.registers.control with
    | .error cause => (some (machine.faultOf none cause), machine, store)
    | .ok (opcode, rest) =>
        match machine.traced store opcode with
        | (some problem, machine) => (some (@MachineError.traceRefused problem), machine, store)
        | (none, machine) =>
            match machine.effectOf store opcode rest with
            | .error cause => (some (machine.faultOf (some opcode) cause), machine, store)
            | .ok effect =>
                match machine.commit store effect with
                | (machine, store) => (none, machine, store)

def result (machine : Machine) (store : Store) : Except MachineError Value :=
  if machine.halted then
    match store.cell? machine.registers.stack with
    | some cell => .ok cell.first
    | none => .error (machine.faultOf (some .stop) .noResult)
  else .error .notHalted

def askInterval : Nat := 1024

def hindrance (machine : Machine) (supervisor : Supervisor) : Option MachineError × Supervisor :=
  if machine.limit > 0 && (machine.steps : Int) ≥ machine.limit then
    (some (.stepLimit machine.steps), supervisor)
  else if machine.steps % askInterval = 0 then
    match supervisor.ask with
    | (some reason, supervisor) => (some (.cancelled machine.steps reason), supervisor)
    | (none, supervisor) => (none, supervisor)
  else (none, supervisor)

structure Ending where
  outcome : Except MachineError Value
  supervisor : Supervisor
  machine : Machine
  store : Store

def run (fuel : Nat) (supervisor : Supervisor) (machine : Machine) (store : Store) : Ending :=
  if machine.halted then ⟨machine.result store, supervisor, machine, store⟩
  else
    match machine.hindrance supervisor with
    | (some error, supervisor) => ⟨.error error, supervisor, machine, store⟩
    | (none, supervisor) =>
        match fuel with
        | 0 => ⟨.error .exhausted, supervisor, machine, store⟩
        | fuel + 1 =>
            match machine.step store with
            | (some error, machine, store) => ⟨.error error, supervisor, machine, store⟩
            | (none, machine, store) => run fuel supervisor machine store

def execute (fuel : Nat) (store : Store) (program arguments : Value) : Ending :=
  match load store program arguments with
  | (machine, store) => run fuel {} machine store

end Machine

end SecdMachine
