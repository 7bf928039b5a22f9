/-!
Values of the machine, and what texts denote. Symbols and integers are plain data; a pair is the
address of a cell in a store, so two pairs are the same value exactly if they are the same cell. What
a text denotes is a tree of pairs: a datum has no identity and no sharing, which begin when it is
placed in a store.
-/

namespace SecdMachine

abbrev Address := Nat

inductive Kind where
  | empty
  | pair
  | symbol
  | integer
  deriving DecidableEq, Repr

namespace Kind

def all : List Kind :=
  [empty, pair, symbol, integer]

def name : Kind → String
  | empty => "empty"
  | pair => "pair"
  | symbol => "symbol"
  | integer => "integer"

def nameOf (number : UInt8) : String :=
  match all[number.toNat]? with
  | some kind => kind.name
  | none => "Kind(" ++ toString number.toNat ++ ")"

end Kind

/-- A value. The absent value and the empty one come from neither reading nor running a program. -/
inductive Value where
  | absent
  | empty
  | symbol (name : String)
  | integer (number : Int64)
  | pair (address : Address)
  deriving DecidableEq, Repr

namespace Value

def nil : Value := symbol "NIL"

def ofBool (condition : Bool) : Value :=
  if condition then symbol "t" else symbol "f"

def kind : Value → Kind
  | absent => .empty
  | empty => .empty
  | symbol _ => .symbol
  | integer _ => .integer
  | pair _ => .pair

def isSymbol : Value → Bool
  | symbol _ => true
  | _ => false

def isInteger : Value → Bool
  | integer _ => true
  | _ => false

def isPair : Value → Bool
  | pair _ => true
  | _ => false

def isEmpty : Value → Bool
  | empty => true
  | _ => false

def isNil (value : Value) : Bool :=
  value = nil

def isAtom (value : Value) : Bool :=
  value.isInteger || value.isSymbol

end Value

inductive Datum where
  | symbol (name : String)
  | integer (number : Int64)
  | pair (first second : Datum)
  deriving DecidableEq, Repr

namespace Datum

def nil : Datum := symbol "NIL"

def ofReversed (elements : List Datum) (tail : Datum) : Datum :=
  elements.foldl (fun rest element => pair element rest) tail

def ofList (elements : List Datum) : Datum :=
  elements.foldr pair nil

end Datum

end SecdMachine
