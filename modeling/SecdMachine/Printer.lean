import SecdMachine.Writer

/-!
The printer as it goes along. A line is written as soon as the next word or mark does not fit on it,
and the pairs that are being printed stand on a path: each cell of a list is put on it before its
element is printed, and all of them are taken off together after the closing parenthesis.
-/

namespace SecdMachine

namespace Writer

def endLine (writer : Writer) : Writer :=
  let writer := { writer with line := writer.line.push '\n' }
  match writer.failure with
  | some _ => { writer with line := "" }
  | none =>
      match writer.sink.write writer.line with
      | (failure, sink) => { writer with line := "", failure := failure, sink := sink }

def addChar (writer : Writer) (char : Char) : Writer :=
  let writer := if writer.line.utf8ByteSize ≥ writer.lineWidth then writer.endLine else writer
  { writer with line := writer.line.push char }

def addWord (writer : Writer) (text : String) : Writer :=
  let full := writer.line.utf8ByteSize > 0 &&
    writer.line.utf8ByteSize + text.utf8ByteSize > writer.lineWidth
  let writer := if full then writer.endLine else writer
  addChar { writer with line := writer.line ++ text } ' '

def add (writer : Writer) : Piece → Writer
  | .word text => writer.addWord text
  | .mark char => writer.addChar char

end Writer

structure Printer where
  writer : Writer := {}
  path : List Address := []
  deriving DecidableEq, Repr

namespace Printer

def add (printer : Printer) (piece : Piece) : Printer :=
  { printer with writer := printer.writer.add piece }

def enter (printer : Printer) (address : Address) : Printer :=
  { printer with path := address :: printer.path }

def leave (printer : Printer) (visited : List Address) : Printer :=
  { printer with
    path := visited.foldl (fun path address => path.filter (· ≠ address)) printer.path }

mutual

def put (store : Store) (fuel : Nat) (printer : Printer) (value : Value) : Option Printer :=
  match fuel with
  | 0 => none
  | fuel + 1 =>
      match value, store.cell? value with
      | .pair address, some _ =>
          if printer.path.contains address then some (printer.add (.word cycleMark))
          else do
            let printer := (printer.add (.mark '(')).add (.mark ' ')
            let (visited, rest, printer) ← walk store fuel printer value []
            let printer ←
              if rest.isNil then some printer
              else put store fuel (printer.add (.word ".")) rest
            return (printer.add (.word ")")).leave visited
      | value, _ => some (printer.add (Store.atomPiece printer.writer.blankNil value))

/-- Prints the elements of a list: the cells that were put on the path, what follows the last of
them, and the printer then. A list that comes back to a cell on the path is marked and counts as
ended. -/
def walk (store : Store) (fuel : Nat) (printer : Printer) (value : Value)
    (visited : List Address) : Option (List Address × Value × Printer) :=
  match fuel with
  | 0 => none
  | fuel + 1 =>
      match value, store.cell? value with
      | .pair address, some cell =>
          if printer.path.contains address then
            some (visited, .nil, (printer.add (.word ".")).add (.word cycleMark))
          else do
            let printer ← put store fuel (printer.enter address) cell.first
            walk store fuel printer cell.second (visited ++ [address])
      | value, _ => some (visited, value, printer)

end

end Printer

end SecdMachine
