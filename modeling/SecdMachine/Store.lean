import SecdMachine.Value

/-!
A store of cells. Cells are only added and overwritten, never removed, so an address stays good for
as long as the store is used. The functions that follow pairs take a number of cells after which
they give up; no walk through distinct cells is longer than the store.
-/

namespace SecdMachine

structure Cell where
  first : Value
  second : Value
  deriving DecidableEq, Repr

structure Store where
  cells : Array Cell := #[]
  deriving DecidableEq, Repr

namespace Store

def size (store : Store) : Nat :=
  store.cells.size

def cell? (store : Store) : Value → Option Cell
  | .pair address => store.cells[address]?
  | _ => none

def first (store : Store) (value : Value) : Value :=
  match store.cell? value with
  | some cell => cell.first
  | none => .nil

def second (store : Store) (value : Value) : Value :=
  match store.cell? value with
  | some cell => cell.second
  | none => .nil

def cons (store : Store) (first second : Value) : Value × Store :=
  (.pair store.cells.size, ⟨store.cells.push ⟨first, second⟩⟩)

def setFirst (store : Store) (address : Address) (value : Value) : Store :=
  ⟨store.cells.modify address fun cell => { cell with first := value }⟩

def setSecond (store : Store) (address : Address) (value : Value) : Store :=
  ⟨store.cells.modify address fun cell => { cell with second := value }⟩

def consReversed (store : Store) (elements : List Value) (tail : Value) : Value × Store :=
  elements.foldl (fun (rest, store) element => store.cons element rest) (tail, store)

def list (store : Store) (elements : List Value) : Value × Store :=
  store.consReversed elements.reverse .nil

def load (store : Store) : Datum → Value × Store
  | .symbol name => (.symbol name, store)
  | .integer number => (.integer number, store)
  | .pair first second =>
      match store.load first with
      | (first, store) =>
          match store.load second with
          | (second, store) => store.cons first second

def lengthFrom (store : Store) : Nat → Nat → Value → Nat
  | 0, count, _ => count
  | fuel + 1, count, value =>
      match store.cell? value with
      | some cell => store.lengthFrom fuel (count + 1) cell.second
      | none => count

def length (store : Store) (value : Value) : Nat :=
  store.lengthFrom store.size 0 value

def equalWithin (store : Store) (fuel : Nat) (left right : Value) : Bool :=
  match left, right with
  | .symbol leftName, .symbol rightName => leftName == rightName
  | .integer leftNumber, .integer rightNumber => leftNumber == rightNumber
  | .pair leftAddress, .pair rightAddress =>
      if leftAddress = rightAddress then true
      else
        match fuel with
        | 0 => false
        | fuel + 1 =>
            match store.cell? left, store.cell? right with
            | some leftCell, some rightCell =>
                store.equalWithin fuel leftCell.first rightCell.first &&
                  store.equalWithin fuel leftCell.second rightCell.second
            | _, _ => false
  | left, right => left.kind = .empty && right.kind = .empty

/-- Whether two values without cycles are the same tree. The absent value and the empty one count
as the same leaf. -/
def equal (store : Store) (left right : Value) : Bool :=
  store.equalWithin (store.size + 1) left right

end Store

end SecdMachine
