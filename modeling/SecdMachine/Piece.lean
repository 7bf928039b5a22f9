import SecdMachine.Store

/-!
The printed form of a value as a sequence of pieces, before it is cut into lines. A pair that is
already being printed is replaced by a mark, so the form of every value is finite.
-/

namespace SecdMachine

/-- A word is followed by a blank and stays on one line; a mark is a single character. -/
inductive Piece where
  | word (text : String)
  | mark (char : Char)
  deriving DecidableEq, Repr

namespace Piece

def text : Piece → String
  | word text => text.push ' '
  | mark char => char.toString

end Piece

def cycleMark : String := "..."

namespace Store

def atomPiece (blankNil : Bool) : Value → Piece
  | .integer number => .word (toString number.toInt)
  | .symbol name => if blankNil && name = "NIL" then .mark ' ' else .word name
  | _ => .mark ' '

mutual

def addPieces (store : Store) (blankNil : Bool) (fuel : Nat) (path : List Address) (value : Value)
    (before : List Piece) : List Piece :=
  match fuel with
  | 0 => before
  | fuel + 1 =>
      match value, store.cell? value with
      | .pair address, some _ =>
          if path.contains address then .word cycleMark :: before
          else store.addSpine blankNil fuel path value (.mark ' ' :: .mark '(' :: before)
      | value, _ => atomPiece blankNil value :: before

def addSpine (store : Store) (blankNil : Bool) (fuel : Nat) (path : List Address) (value : Value)
    (before : List Piece) : List Piece :=
  match fuel with
  | 0 => before
  | fuel + 1 =>
      match value, store.cell? value with
      | .pair address, some cell =>
          if path.contains address then
            .word ")" :: .word cycleMark :: .word "." :: before
          else
            store.addSpine blankNil fuel (address :: path) cell.second
              (store.addPieces blankNil fuel (address :: path) cell.first before)
      | value, _ =>
          if value.isNil then .word ")" :: before
          else .word ")" :: atomPiece blankNil value :: .word "." :: before

end

/-- The pieces of a value. Each cell on the way is new to the path, so twice the size of the store
bounds the depth. -/
def pieces (store : Store) (blankNil : Bool) (value : Value) : List Piece :=
  (store.addPieces blankNil (2 * store.size + 2) [] value []).reverse

def format (store : Store) (value : Value) : String :=
  let text := String.join ((store.pieces false value).map Piece.text)
  String.ofList (text.toList.reverse.dropWhile (· = ' ')).reverse

end Store

end SecdMachine
