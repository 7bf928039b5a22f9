import SecdMachine.Machine

/-!
The machine as it works, in place: registers, flag, count and store are changed one after the other,
and whatever was changed before an error stays changed. Each instruction takes its operands from
copies of the registers and assigns the registers last.
-/

namespace SecdMachine

structure Workbench where
  machine : Machine
  store : Store
  opcode : Option Opcode := none
  deriving DecidableEq, Repr

/-- Work changes the workbench. An error does not undo what was changed before it. -/
abbrev Work := EStateM MachineError Workbench

namespace Workbench

def setStack (value : Value) : Work Unit :=
  modify fun bench =>
    { bench with machine.registers.stack := value }

def setEnvironment (value : Value) : Work Unit :=
  modify fun bench =>
    { bench with machine.registers.environment := value }

def setControl (value : Value) : Work Unit :=
  modify fun bench =>
    { bench with machine.registers.control := value }

def setDump (value : Value) : Work Unit :=
  modify fun bench =>
    { bench with machine.registers.dump := value }

def cons (first second : Value) : Work Value :=
  modifyGet fun bench =>
    match bench.store.cons first second with
    | (value, store) => (value, { bench with store := store })

def list (elements : List Value) : Work Value :=
  modifyGet fun bench =>
    match bench.store.list elements with
    | (value, store) => (value, { bench with store := store })

def first (value : Value) : Work Value := do
  return (← get).store.first value

def second (value : Value) : Work Value := do
  return (← get).store.second value

def setFirst (address : Address) (value : Value) : Work Unit :=
  modify fun bench => { bench with store := bench.store.setFirst address value }

/-- Ends the work with a fault that shows the registers and the count as they are by now. -/
def fault {α : Type} (cause : Cause) : Work α := do
  let bench ← get
  throw (bench.machine.faultOf bench.opcode cause)

def cellOr (value : Value) (cause : Cause) : Work Cell := do
  match (← get).store.cell? value with
  | some cell => return cell
  | none => fault cause

def operand (code : Value) : Work (Value × Value) := do
  let cell ← cellOr code .operandMissing
  return (cell.first, cell.second)

def pop (stack : Value) (missing : String) : Work (Value × Value) := do
  let cell ← cellOr stack (.stackEmpty missing)
  return (cell.first, cell.second)

def popDump (dump : Value) : Work (Value × Value) := do
  let cell ← cellOr dump .dumpEmpty
  return (cell.first, cell.second)

def popCall (stack : Value) : Work (Value × Value × Value) := do
  let (closure, below) ← pop stack "closure"
  let (arguments, below) ← pop below "argument list"
  let _ ← cellOr closure (.closureNotPair closure)
  return (closure, arguments, below)

def callFrame (entry : Value) : Work (Value × Value × Value) := do
  let stack ← cellOr entry (.notCallFrame entry)
  let environment ← cellOr stack.second (.notCallFrame entry)
  let control ← cellOr environment.second (.notCallFrame entry)
  if control.second.isNil then return (stack.first, environment.first, control.first)
  else fault (.notCallFrame entry)

def popIntegers (stack : Value) : Work (Int64 × Int64 × Value) := do
  let (top, below) ← pop stack "integer operand"
  let (second, below) ← pop below "integer operand"
  match top with
  | .integer top =>
      match second with
      | .integer second => return (top, second, below)
      | second => fault (.secondNotInteger second)
  | top => fault (.topNotInteger top)

def arithmetic (opcode : Opcode) (second top : Int64) : Work Value :=
  match opcode with
  | .add => return .integer (second + top)
  | .sub => return .integer (second - top)
  | .mul => return .integer (second * top)
  | .div => if top = 0 then fault (.divisionByZero second) else return .integer (second / top)
  | .rem => if top = 0 then fault (.remainderByZero second) else return .integer (second % top)
  | _ => return .ofBool (second ≤ top)

def locate (environment address : Value) : Work Value := do
  let cell ← cellOr address (.addressNotPair address)
  match cell.first, cell.second with
  | .integer frame, .integer position =>
      let store := (← get).store
      let found := store.first (Instruction.walk store frame.toInt.toNat environment)
      return store.first (Instruction.walk store position.toInt.toNat found)
  | _, _ => fault (.addressNotIntegers address)

def execute (opcode : Opcode) (rest : Value) : Work Unit := do
  let ⟨stack, environment, _, dump⟩ := (← get).machine.registers
  match opcode with
  | .ld =>
      let (address, rest) ← operand rest
      let value ← locate environment address
      setStack (← cons value stack)
      setControl rest
  | .ldc =>
      let (literal, rest) ← operand rest
      setStack (← cons literal stack)
      setControl rest
  | .ldf =>
      let (body, rest) ← operand rest
      setStack (← cons (← cons body environment) stack)
      setControl rest
  | .ap =>
      let (closure, arguments, below) ← popCall stack
      setDump (← cons (← list [below, environment, rest]) dump)
      setEnvironment (← cons arguments (← second closure))
      setControl (← first closure)
      setStack .nil
  | .rtn =>
      let (result, _) ← pop stack "return value"
      let (frame, below) ← popDump dump
      let (savedStack, savedEnvironment, savedControl) ← callFrame frame
      setStack (← cons result savedStack)
      setEnvironment savedEnvironment
      setControl savedControl
      setDump below
  | .dum =>
      setEnvironment (← cons .nil environment)
      setControl rest
  | .rap =>
      let (closure, arguments, below) ← popCall stack
      let frames ← second closure
      let _ ← cellOr frames (.closureWithoutFrame frames)
      let _ ← cellOr environment .environmentWithoutFrame
      setDump (← cons (← list [below, ← second environment, rest]) dump)
      match frames with
      | .pair placeholder => setFirst placeholder arguments
      | _ => pure ()
      setEnvironment frames
      setControl (← first closure)
      setStack .nil
  | .sel =>
      let (yes, rest) ← operand rest
      let (no, rest) ← operand rest
      let (condition, below) ← pop stack "condition"
      match condition with
      | .symbol name =>
          setDump (← cons rest dump)
          if Instruction.isTrue name then setControl yes else setControl no
          setStack below
      | condition => fault (.conditionNotSymbol condition)
  | .join =>
      let (continuation, below) ← popDump dump
      setControl continuation
      setDump below
  | .car =>
      let (top, below) ← pop stack "operand"
      let cell ← cellOr top (.operandNotPair top)
      setStack (← cons cell.first below)
      setControl rest
  | .cdr =>
      let (top, below) ← pop stack "operand"
      let cell ← cellOr top (.operandNotPair top)
      setStack (← cons cell.second below)
      setControl rest
  | .atom =>
      let (top, below) ← pop stack "operand"
      setStack (← cons (.ofBool top.isAtom) below)
      setControl rest
  | .cons =>
      let (first, below) ← pop stack "first component"
      let (second, below) ← pop below "second component"
      setStack (← cons (← cons first second) below)
      setControl rest
  | .eq =>
      let (first, below) ← pop stack "operand"
      let (second, below) ← pop below "operand"
      setStack (← cons (.ofBool (Instruction.eqAtoms first second)) below)
      setControl rest
  | .stop => modify fun bench => { bench with machine.halted := true }
  | opcode =>
      let (top, second, below) ← popIntegers stack
      let value ← arithmetic opcode second top
      setStack (← cons value below)
      setControl rest

def trace (opcode : Opcode) : Work Unit := do
  let bench ← get
  match bench.machine.traced bench.store opcode with
  | (problem, machine) =>
      set { bench with machine := machine }
      match problem with
      | none => return
      | some problem => throw (@MachineError.traceRefused problem)

def step : Work Unit := do
  if (← get).machine.halted then throw .halted
  modify fun bench => { bench with opcode := none }
  let control := (← get).machine.registers.control
  let cell ← cellOr control (.controlEnded control)
  match cell.first with
  | .integer number =>
      match Opcode.ofNumber? number.toInt with
      | some opcode =>
          modify fun bench => { bench with opcode := some opcode }
          trace opcode
          let bench ← get
          if Instruction.hasDepth bench.store opcode.stackNeed bench.machine.registers.stack then
            execute opcode cell.second
            modify fun bench => { bench with machine.steps := bench.machine.steps + 1 }
          else fault (.stackTooShort opcode)
      | none => fault (.opcodeUndefined number)
  | value => fault (.opcodeNotInteger value)

end Workbench

end SecdMachine
