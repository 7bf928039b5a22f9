import SecdMachine.Fault

/-!
From symbolic code to numeric code. Mnemonics are replaced by their numbers at every level of
nesting; addresses and literals stay the very values they were.
-/

namespace SecdMachine

inductive AssemblyError where
  | unknownNumber (position : Nat) (number : Int64)
  | unknownName (position : Nat) (name : String)
  | notOpcode (position : Nat) (value : Value)
  | operandMissing (position : Nat) (opcode : Opcode) (index : Nat)
  | improperEnd (value : Value)
  | endless
  deriving DecidableEq, Repr

namespace AssemblyError

def kind? : AssemblyError → Option FaultKind
  | unknownNumber _ _ => some .unknownOpcode
  | unknownName _ _ => some .unknownOpcode
  | notOpcode _ _ => some .type
  | _ => none

def place (position : Nat) : String :=
  "secd: assemble instruction " ++ toString position ++ ": "

def message (store : Store) : AssemblyError → String
  | unknownNumber position number =>
      place position ++ FaultKind.unknownOpcode.message ++ ": " ++ toString number.toInt
  | unknownName position name =>
      place position ++ FaultKind.unknownOpcode.message ++ ": " ++ name
  | notOpcode position value =>
      place position ++ FaultKind.type.message ++ ": " ++ store.format value ++ " is not an opcode"
  | operandMissing position opcode index =>
      place position ++ opcode.name ++ " is missing operand " ++ toString (index + 1)
  | improperEnd value =>
      "secd: assemble: code ends in " ++ store.format value ++ ", want NIL"
  | endless => "secd: assemble: code does not end"

end AssemblyError

namespace Assembler

def opcode (position : Nat) : Value → Except AssemblyError Opcode
  | .integer number =>
      match Opcode.ofNumber? number.toInt with
      | some opcode => .ok opcode
      | none => .error (.unknownNumber position number)
  | .symbol name =>
      match Opcode.ofName? name with
      | some opcode => .ok opcode
      | none => .error (.unknownName position name)
  | value => .error (.notOpcode position value)

structure Taken where
  reversed : List Value
  rest : Value
  store : Store

/-- Takes `count` operands of an instruction from the code, `index` of them being already taken.
Operands that are code are assembled by `nested`. -/
def operands (nested : Store → Value → Except AssemblyError (Value × Store)) (position : Nat)
    (opcode : Opcode) : Nat → Nat → Taken → Except AssemblyError Taken
  | _, 0, taken => .ok taken
  | index, count + 1, ⟨reversed, code, store⟩ =>
      match store.cell? code with
      | none => .error (.operandMissing position opcode index)
      | some cell =>
          match opcode.operandKind with
          | .literal =>
              operands nested position opcode (index + 1) count
                ⟨cell.first :: reversed, cell.second, store⟩
          | .code =>
              match nested store cell.first with
              | .error error => .error error
              | .ok (operand, store) =>
                  operands nested position opcode (index + 1) count
                    ⟨operand :: reversed, cell.second, store⟩

def assembleFrom : Nat → Store → Nat → List Value → Value → Except AssemblyError (Value × Store)
  | 0, _, _, _, _ => .error .endless
  | fuel + 1, store, position, reversed, code =>
      match store.cell? code with
      | none =>
          if code.isNil then .ok (store.consReversed reversed .nil)
          else .error (.improperEnd code)
      | some cell =>
          match opcode position cell.first with
          | .error error => .error error
          | .ok opcode =>
              let nested := fun store code => assembleFrom fuel store 0 [] code
              let head := Value.integer (Int64.ofNat opcode.number)
              match operands nested position opcode 0 opcode.operandCount
                  ⟨head :: reversed, cell.second, store⟩ with
              | .error error => .error error
              | .ok taken =>
                  assembleFrom fuel taken.store (position + 1) taken.reversed taken.rest

/-- Assembles code without cycles. No chain of its cells is longer than the store. -/
def assemble (store : Store) (code : Value) : Except AssemblyError (Value × Store) :=
  assembleFrom (store.size + 1) store 0 [] code

end Assembler

end SecdMachine
