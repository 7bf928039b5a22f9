import SecdMachine.Opcode
import SecdMachine.Writer

/-!
The four registers and how they are printed, and why an instruction cannot be executed. A fault
carries its cause, the instruction if one was recognised, and the registers before it.
-/

namespace SecdMachine

structure Registers where
  stack : Value
  environment : Value
  control : Value
  dump : Value
  deriving DecidableEq, Repr

namespace Registers

def labelled (registers : Registers) : List (String × Value) :=
  [("s:", registers.stack), ("e:", registers.environment), ("c:", registers.control),
   ("d:", registers.dump)]

def printLabelled (store : Store) : Sink → List (String × Value) → Option String × Sink
  | sink, [] => (none, sink)
  | sink, (label, value) :: rest =>
      match sink.write (label.push '\n') with
      | (some problem, sink) => (some problem, sink)
      | (none, sink) =>
          let writer : Writer := { sink := sink }
          match writer.putLine store value with
          | ⟨_, _, _, some problem, sink⟩ => (some problem, sink)
          | ⟨_, _, _, none, sink⟩ => printLabelled store sink rest

/-- Writes the registers up to the first line that is refused, and gives the error of that one. -/
def printTo (registers : Registers) (store : Store) (sink : Sink) : Option String × Sink :=
  printLabelled store sink registers.labelled

def print (registers : Registers) (store : Store) (sink : Sink) : Bool × Sink :=
  match registers.printTo store sink with
  | (problem, sink) => (problem.isNone, sink)

end Registers

inductive FaultKind where
  | type
  | arithmetic
  | underflow
  | unknownOpcode
  deriving DecidableEq, Repr

namespace FaultKind

def message : FaultKind → String
  | type => "type fault"
  | arithmetic => "arithmetic fault"
  | underflow => "stack or dump underflow"
  | unknownOpcode => "unknown opcode"

end FaultKind

inductive Cause where
  | controlEnded (control : Value)
  | opcodeNotInteger (value : Value)
  | opcodeUndefined (number : Int64)
  | stackTooShort (opcode : Opcode)
  | stackEmpty (missing : String)
  | operandMissing
  | addressNotPair (address : Value)
  | addressNotIntegers (address : Value)
  | closureNotPair (value : Value)
  | closureWithoutFrame (environment : Value)
  | environmentWithoutFrame
  | conditionNotSymbol (value : Value)
  | operandNotPair (value : Value)
  | topNotInteger (value : Value)
  | secondNotInteger (value : Value)
  | divisionByZero (dividend : Int64)
  | remainderByZero (dividend : Int64)
  | dumpEmpty
  | notCallFrame (entry : Value)
  | noResult
  deriving DecidableEq, Repr

namespace Cause

def kind : Cause → FaultKind
  | opcodeUndefined _ => .unknownOpcode
  | stackTooShort _ => .underflow
  | stackEmpty _ => .underflow
  | environmentWithoutFrame => .underflow
  | dumpEmpty => .underflow
  | noResult => .underflow
  | divisionByZero _ => .arithmetic
  | remainderByZero _ => .arithmetic
  | _ => .type

def mismatch (store : Store) (role : String) (value : Value) (wanted : String) : String :=
  role ++ " is " ++ value.kind.name ++ " " ++ store.format value ++ ", want " ++ wanted

def detail (store : Store) : Cause → String
  | controlEnded control => "control ended without STOP: " ++ store.format control
  | opcodeNotInteger value => "opcode " ++ store.format value ++ " is not an integer"
  | opcodeUndefined number => "opcode " ++ toString number.toInt
  | stackTooShort opcode =>
      opcode.name ++ " needs " ++ toString opcode.stackNeed ++ " stack values"
  | stackEmpty missing => "stack empty, need " ++ missing
  | operandMissing => "missing operand"
  | addressNotPair address => "address " ++ store.format address ++ " is not a pair"
  | addressNotIntegers address =>
      "address " ++ store.format address ++ " is not (integer . integer)"
  | closureNotPair value => mismatch store "closure" value "pair"
  | closureWithoutFrame environment =>
      "closure environment " ++ store.format environment ++ " has no frame to complete"
  | environmentWithoutFrame => "environment has no DUM frame"
  | conditionNotSymbol value => mismatch store "condition" value "symbol"
  | operandNotPair value => mismatch store "operand" value "pair"
  | topNotInteger value => mismatch store "top operand" value "integer"
  | secondNotInteger value => mismatch store "second operand" value "integer"
  | divisionByZero dividend => "division of " ++ toString dividend.toInt ++ " by zero"
  | remainderByZero dividend => "remainder of " ++ toString dividend.toInt ++ " by zero"
  | dumpEmpty => "dump is empty"
  | notCallFrame entry => "dump entry " ++ store.format entry ++ " is not a call frame"
  | noResult => "stack is empty at STOP"

end Cause

/-- A fault: its cause, the instruction if one was recognised, how many instructions were completed
before it, and the registers before it. -/
structure Fault where
  cause : Cause
  opcode : Option Opcode
  step : Nat
  registers : Registers
  deriving DecidableEq, Repr

namespace Fault

def message (store : Store) (fault : Fault) : String :=
  let place :=
    match fault.opcode with
    | some opcode => " in " ++ opcode.name
    | none => ""
  "secd: " ++ fault.cause.kind.message ++ place ++ " at step " ++ toString fault.step ++ ": " ++
    fault.cause.detail store

end Fault

end SecdMachine
