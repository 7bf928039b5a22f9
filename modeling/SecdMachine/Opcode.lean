import SecdMachine.Text.Characters

/-!
The twenty-one instructions. One table gives the number and the mnemonic of each, how many values it
needs on the stack, and how many operands follow it in the code.
-/

namespace SecdMachine

inductive Opcode where
  | ld
  | ldc
  | ldf
  | ap
  | rtn
  | dum
  | rap
  | sel
  | join
  | car
  | cdr
  | atom
  | cons
  | eq
  | add
  | sub
  | mul
  | div
  | rem
  | leq
  | stop
  deriving DecidableEq, Repr

inductive OperandKind where
  | literal
  | code
  deriving DecidableEq, Repr

namespace Opcode

def all : List Opcode :=
  [ld, ldc, ldf, ap, rtn, dum, rap, sel, join, car, cdr, atom, cons, eq, add, sub, mul, div, rem,
   leq, stop]

def number : Opcode → Nat
  | ld => 1
  | ldc => 2
  | ldf => 3
  | ap => 4
  | rtn => 5
  | dum => 6
  | rap => 7
  | sel => 8
  | join => 9
  | car => 10
  | cdr => 11
  | atom => 12
  | cons => 13
  | eq => 14
  | add => 15
  | sub => 16
  | mul => 17
  | div => 18
  | rem => 19
  | leq => 20
  | stop => 21

def ofNumber? (number : Int) : Option Opcode :=
  if number < 1 then none else all[number.toNat - 1]?

def name : Opcode → String
  | ld => "LD"
  | ldc => "LDC"
  | ldf => "LDF"
  | ap => "AP"
  | rtn => "RTN"
  | dum => "DUM"
  | rap => "RAP"
  | sel => "SEL"
  | join => "JOIN"
  | car => "CAR"
  | cdr => "CDR"
  | atom => "ATOM"
  | cons => "CONS"
  | eq => "EQ"
  | add => "ADD"
  | sub => "SUB"
  | mul => "MUL"
  | div => "DIV"
  | rem => "REM"
  | leq => "LEQ"
  | stop => "STOP"

def ofName? (name : String) : Option Opcode :=
  let capitals := Text.capitals name
  all.find? fun opcode => opcode.name = capitals

def stackNeed : Opcode → Nat
  | ld => 0
  | ldc => 0
  | ldf => 0
  | ap => 2
  | rtn => 1
  | dum => 0
  | rap => 2
  | sel => 1
  | join => 0
  | car => 1
  | cdr => 1
  | atom => 1
  | cons => 2
  | eq => 2
  | add => 2
  | sub => 2
  | mul => 2
  | div => 2
  | rem => 2
  | leq => 2
  | stop => 0

def operandCount : Opcode → Nat
  | ld => 1
  | ldc => 1
  | ldf => 1
  | sel => 2
  | _ => 0

def operandKind : Opcode → OperandKind
  | ldf => .code
  | sel => .code
  | _ => .literal

def nameOf (number : Int) : String :=
  match ofNumber? number with
  | some opcode => opcode.name
  | none => "UNKNOWN(" ++ toString number ++ ")"

end Opcode

end SecdMachine
