import SecdMachine.Text.Characters

/-!
Integers within 64 bits. A literal is an optional minus sign and decimal digits. A numeral, as it is
written in settings and options, has an optional sign, an optional base, digits, and single
underscores between digits.
-/

namespace SecdMachine

inductive LiteralProblem where
  | malformed
  | outOfRange
  deriving DecidableEq, Repr

structure LiteralError where
  text : String
  problem : LiteralProblem
  deriving DecidableEq, Repr

namespace LiteralError

def message (error : LiteralError) : String :=
  let reason :=
    match error.problem with
    | .malformed => "invalid syntax"
    | .outOfRange => "value out of range"
  "sexp: integer literal " ++ Text.quoted error.text ++ ": " ++ reason

end LiteralError

namespace Literal

def magnitude (high : Nat) : List Char → Except LiteralProblem Nat
  | [] => .ok high
  | char :: rest =>
      if char.isDigit then
        let number := high * 10 + (char.toNat - '0'.toNat)
        if number < UInt64.size then magnitude number rest else .error .outOfRange
      else .error .malformed

def inRange (number : Int) : Except LiteralProblem Int64 :=
  if Int64.minValue.toInt ≤ number ∧ number ≤ Int64.maxValue.toInt then .ok (Int64.ofInt number)
  else .error .outOfRange

def integer (text : List Char) : Except LiteralProblem Int64 := do
  match text with
  | '-' :: digits => inRange (-(← magnitude 0 digits))
  | digits => inRange (← magnitude 0 digits)

end Literal

namespace Numeral

def digit? (char : Char) : Option Nat :=
  if char.isDigit then some (char.toNat - '0'.toNat)
  else if char.isLower then some (char.toNat - 'a'.toNat + 10)
  else if char.isUpper then some (char.toNat - 'A'.toNat + 10)
  else none

def magnitude (base high : Nat) : List Char → Except LiteralProblem Nat
  | [] => .ok high
  | char :: rest =>
      if char = '_' then magnitude base high rest
      else
        match digit? char with
        | none => .error .malformed
        | some digit =>
            if base ≤ digit then .error .malformed
            else
              let number := high * base + digit
              if number < UInt64.size then magnitude base number rest else .error .outOfRange

def base? (mark : Char) : Option Nat :=
  match mark.toLower with
  | 'b' => some 2
  | 'o' => some 8
  | 'x' => some 16
  | _ => none

def based : List Char → Nat × List Char
  | '0' :: mark :: digit :: rest =>
      match base? mark with
      | some base => (base, digit :: rest)
      | none => (8, mark :: digit :: rest)
  | '0' :: rest => (8, rest)
  | digits => (10, digits)

/-- Whether each underscore stands between digits. `afterDigit` says whether a digit, or the mark of
a base, stands right before. -/
def underscoresSeparate (hexadecimal : Bool) : Bool → Bool → List Char → Bool
  | _, afterUnderscore, [] => !afterUnderscore
  | afterDigit, afterUnderscore, char :: rest =>
      if char.isDigit || (hexadecimal && (digit? char).any (· < 16)) then
        underscoresSeparate hexadecimal true false rest
      else if char = '_' then afterDigit && underscoresSeparate hexadecimal false true rest
      else !afterUnderscore && underscoresSeparate hexadecimal false false rest

def underscoresAllowed : List Char → Bool
  | '0' :: mark :: rest =>
      match base? mark with
      | some base => underscoresSeparate (base = 16) true false rest
      | none => underscoresSeparate false false false ('0' :: mark :: rest)
  | digits => underscoresSeparate false false false digits

def unsigned (digits : List Char) : Except LiteralProblem Nat := do
  if digits.isEmpty then .error .malformed
  let (base, marked) := based digits
  let number ← magnitude base 0 marked
  if digits.contains '_' && !underscoresAllowed digits then .error .malformed
  return number

def integer (text : List Char) : Except LiteralProblem Int64 := do
  match text with
  | '-' :: digits => Literal.inRange (-(← unsigned digits))
  | '+' :: digits => Literal.inRange (← unsigned digits)
  | digits => Literal.inRange (← unsigned digits)

end Numeral

end SecdMachine
