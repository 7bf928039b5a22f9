import SecdMachine.Opcode
import SecdMachine.Piece

/-!
Listings of numeric code. Each instruction has a line with its position; code operands are listed
below it, one level further in.
-/

namespace SecdMachine

namespace Listing

def indent (depth : Nat) : String :=
  String.ofList (List.replicate (4 * depth) ' ')

def ordinal (position : Nat) : String :=
  let digits := Nat.toDigits 10 position
  String.ofList (List.replicate (4 - digits.length) '0' ++ digits)

def line (depth position : Nat) (text : String) : String :=
  indent depth ++ ordinal position ++ "  " ++ text ++ "\n"

def opcode? : Value → Option Opcode
  | .integer number => Opcode.ofNumber? number.toInt
  | _ => none

def labels : Opcode → List (Option String)
  | .sel => [some "then:", some "else:"]
  | .ldf => [none]
  | _ => []

def addOperands (store : Store) (nested : Value → List String → List String) (depth : Nat) :
    List (Option String) → Value → List String → List String × Value
  | [], code, lines => (lines, code)
  | label :: labels, code, lines =>
      match store.cell? code with
      | none => (lines, code)
      | some cell =>
          let lines :=
            match label with
            | some text => (indent depth ++ "      " ++ text ++ "\n") :: lines
            | none => lines
          addOperands store nested depth labels cell.second (nested cell.first lines)

def literals (store : Store) : Nat → Value → String → String × Value
  | 0, code, text => (text, code)
  | count + 1, code, text =>
      match store.cell? code with
      | none => (text, code)
      | some cell => literals store count cell.second (text ++ " " ++ store.format cell.first)

def addLines (store : Store) : Nat → Nat → Nat → Value → List String → List String
  | 0, _, _, _, lines => lines
  | fuel + 1, depth, position, code, lines =>
      match store.cell? code with
      | none =>
          if code.isNil then lines else (indent depth ++ ". " ++ store.format code ++ "\n") :: lines
      | some cell =>
          match opcode? cell.first with
          | none =>
              addLines store fuel depth (position + 1) cell.second
                (line depth position ("?? " ++ store.format cell.first) :: lines)
          | some opcode =>
              match opcode.operandKind with
              | .code =>
                  let nested := fun code lines => addLines store fuel (depth + 1) 0 code lines
                  match addOperands store nested depth (labels opcode) cell.second
                      (line depth position opcode.name :: lines) with
                  | (lines, rest) => addLines store fuel depth (position + 1) rest lines
              | .literal =>
                  match literals store opcode.operandCount cell.second opcode.name with
                  | (text, rest) =>
                      addLines store fuel depth (position + 1) rest (line depth position text :: lines)

def lines (store : Store) (code : Value) : List String :=
  (addLines store (store.size + 1) 0 0 code []).reverse

def text (store : Store) (code : Value) (name : String) : String :=
  let heading := if name.isEmpty then "" else "; === " ++ name ++ " ===\n"
  heading ++ String.join (lines store code)

end Listing

end SecdMachine
