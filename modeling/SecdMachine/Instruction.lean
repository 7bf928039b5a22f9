import SecdMachine.Fault

/-!
What an instruction does. It is first worked out from the registers, which may fail and changes
nothing, as an `Effect`; an effect is then carried out, which cannot fail. Apart from adding new
cells, the only effect that touches the store is that of a recursive call, which replaces the first
component of one pair.
-/

namespace SecdMachine

inductive Effect where
  | push (value stack control : Value)
  | pushPair (first second stack control : Value)
  | call (code frame environment stack control : Value)
  | callRecursive (closure frame : Value) (environment : Address) (stack saved control : Value)
  | return (value stack environment control dump : Value)
  | extend (control : Value)
  | branch (code stack control : Value)
  | resume (control dump : Value)
  | halt
  deriving DecidableEq, Repr

namespace Effect

def halts : Effect → Bool
  | halt => true
  | _ => false

def perform (effect : Effect) (registers : Registers) (store : Store) : Registers × Store :=
  match effect with
  | push value stack control =>
      match store.cons value stack with
      | (stack, store) => ({ registers with stack := stack, control := control }, store)
  | pushPair first second stack control =>
      match store.cons first second with
      | (value, store) =>
          match store.cons value stack with
          | (stack, store) => ({ registers with stack := stack, control := control }, store)
  | call code frame environment stack control =>
      match store.list [stack, registers.environment, control] with
      | (saved, store) =>
          match store.cons saved registers.dump with
          | (dump, store) =>
              match store.cons frame environment with
              | (environment, store) => (⟨.nil, environment, code, dump⟩, store)
  | callRecursive closure frame environment stack saved control =>
      match store.list [stack, saved, control] with
      | (saved, store) =>
          match store.cons saved registers.dump with
          | (dump, store) =>
              let store := store.setFirst environment frame
              (⟨.nil, .pair environment, store.first closure, dump⟩, store)
  | .return value stack environment control dump =>
      match store.cons value stack with
      | (stack, store) => (⟨stack, environment, control, dump⟩, store)
  | extend control =>
      match store.cons .nil registers.environment with
      | (environment, store) =>
          ({ registers with environment := environment, control := control }, store)
  | branch code stack control =>
      match store.cons control registers.dump with
      | (dump, store) =>
          ({ registers with stack := stack, control := code, dump := dump }, store)
  | resume control dump => ({ registers with control := control, dump := dump }, store)
  | halt => (registers, store)

end Effect

namespace Instruction

def operand (store : Store) (control : Value) : Except Cause (Value × Value) :=
  match store.cell? control with
  | some cell => .ok (cell.first, cell.second)
  | none => .error .operandMissing

def pop (store : Store) (stack : Value) (missing : String) : Except Cause (Value × Value) :=
  match store.cell? stack with
  | some cell => .ok (cell.first, cell.second)
  | none => .error (.stackEmpty missing)

def popDump (store : Store) (dump : Value) : Except Cause (Value × Value) :=
  match store.cell? dump with
  | some cell => .ok (cell.first, cell.second)
  | none => .error .dumpEmpty

def hasDepth (store : Store) : Nat → Value → Bool
  | 0, _ => true
  | count + 1, stack =>
      match store.cell? stack with
      | some cell => hasDepth store count cell.second
      | none => false

def walk (store : Store) : Nat → Value → Value
  | 0, value => value
  | count + 1, value =>
      match store.cell? value with
      | some cell => walk store count cell.second
      | none => value

/-- The value at an address, a pair of a frame number and a position in that frame. What lies past
the end of either is NIL. -/
def locate (store : Store) (environment address : Value) : Except Cause Value :=
  match store.cell? address with
  | none => .error (.addressNotPair address)
  | some cell =>
      match cell.first, cell.second with
      | .integer frame, .integer position =>
          let found := store.first (walk store frame.toInt.toNat environment)
          .ok (store.first (walk store position.toInt.toNat found))
      | _, _ => .error (.addressNotIntegers address)

structure Call where
  closure : Value
  cell : Cell
  arguments : Value
  stack : Value

def popCall (store : Store) (stack : Value) : Except Cause Call := do
  let (closure, below) ← pop store stack "closure"
  let (arguments, below) ← pop store below "argument list"
  match store.cell? closure with
  | some cell => .ok ⟨closure, cell, arguments, below⟩
  | none => .error (.closureNotPair closure)

def callFrame (store : Store) (entry : Value) : Except Cause (Value × Value × Value) :=
  match store.cell? entry with
  | none => .error (.notCallFrame entry)
  | some stack =>
      match store.cell? stack.second with
      | none => .error (.notCallFrame entry)
      | some environment =>
          match store.cell? environment.second with
          | none => .error (.notCallFrame entry)
          | some control =>
              if control.second.isNil then .ok (stack.first, environment.first, control.first)
              else .error (.notCallFrame entry)

def popIntegers (store : Store) (stack : Value) : Except Cause (Int64 × Int64 × Value) := do
  let (top, below) ← pop store stack "integer operand"
  let (second, below) ← pop store below "integer operand"
  match top, second with
  | .integer top, .integer second => .ok (top, second, below)
  | .integer _, second => .error (.secondNotInteger second)
  | top, _ => .error (.topNotInteger top)

def isTrue (name : String) : Bool :=
  name = "t" || name = "T"

/-- Atoms of one kind are compared by value, pairs are never equal, and two absent or empty values
are. -/
def eqAtoms : Value → Value → Bool
  | .symbol left, .symbol right => left = right
  | .integer left, .integer right => left = right
  | left, right => left.kind = .empty && right.kind = .empty

/-- Applies an arithmetic instruction to the second value and the top one. Results wrap around at 64
bits; quotients go toward zero. -/
def arithmetic (opcode : Opcode) (second top : Int64) : Except Cause Value :=
  match opcode with
  | .add => .ok (.integer (second + top))
  | .sub => .ok (.integer (second - top))
  | .mul => .ok (.integer (second * top))
  | .div => if top = 0 then .error (.divisionByZero second) else .ok (.integer (second / top))
  | .rem => if top = 0 then .error (.remainderByZero second) else .ok (.integer (second % top))
  | _ => .ok (.ofBool (second ≤ top))

def effect (store : Store) (registers : Registers) (opcode : Opcode) (rest : Value) :
    Except Cause Effect := do
  let stack := registers.stack
  match opcode with
  | .ld =>
      let (address, rest) ← operand store rest
      let value ← locate store registers.environment address
      return .push value stack rest
  | .ldc =>
      let (value, rest) ← operand store rest
      return .push value stack rest
  | .ldf =>
      let (body, rest) ← operand store rest
      return .pushPair body registers.environment stack rest
  | .ap =>
      let call ← popCall store stack
      return .call call.cell.first call.arguments call.cell.second call.stack rest
  | .rtn =>
      let (value, _) ← pop store stack "return value"
      let (entry, dump) ← popDump store registers.dump
      let (stack, environment, control) ← callFrame store entry
      return .return value stack environment control dump
  | .dum => return .extend rest
  | .rap =>
      let call ← popCall store stack
      match call.cell.second, store.cell? call.cell.second with
      | .pair environment, some _ =>
          match store.cell? registers.environment with
          | some outer =>
              return .callRecursive call.closure call.arguments environment call.stack
                outer.second rest
          | none => .error .environmentWithoutFrame
      | environment, _ => .error (.closureWithoutFrame environment)
  | .sel =>
      let (first, rest) ← operand store rest
      let (second, rest) ← operand store rest
      let (condition, stack) ← pop store stack "condition"
      match condition with
      | .symbol name => return .branch (if isTrue name then first else second) stack rest
      | condition => .error (.conditionNotSymbol condition)
  | .join =>
      let (control, dump) ← popDump store registers.dump
      return .resume control dump
  | .car =>
      let (value, stack) ← pop store stack "operand"
      match store.cell? value with
      | some cell => return .push cell.first stack rest
      | none => .error (.operandNotPair value)
  | .cdr =>
      let (value, stack) ← pop store stack "operand"
      match store.cell? value with
      | some cell => return .push cell.second stack rest
      | none => .error (.operandNotPair value)
  | .atom =>
      let (value, stack) ← pop store stack "operand"
      return .push (.ofBool value.isAtom) stack rest
  | .cons =>
      let (first, stack) ← pop store stack "first component"
      let (second, stack) ← pop store stack "second component"
      return .pushPair first second stack rest
  | .eq =>
      let (first, stack) ← pop store stack "operand"
      let (second, stack) ← pop store stack "operand"
      return .push (.ofBool (eqAtoms first second)) stack rest
  | .stop => return .halt
  | opcode =>
      let (top, second, stack) ← popIntegers store stack
      let value ← arithmetic opcode second top
      return .push value stack rest

def decode (store : Store) (control : Value) : Except Cause (Opcode × Value) :=
  match store.cell? control with
  | none => .error (.controlEnded control)
  | some cell =>
      match cell.first with
      | .integer number =>
          match Opcode.ofNumber? number.toInt with
          | some opcode => .ok (opcode, cell.second)
          | none => .error (.opcodeUndefined number)
      | value => .error (.opcodeNotInteger value)

end Instruction

end SecdMachine
