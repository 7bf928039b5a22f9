import SecdMachine.Piece
import SecdMachine.Sink

/-!
Writing values to a sink in lines of a given width. `Layout` cuts pieces into lines and knows
nothing of sinks; `Writer` adds the sink, which gets one write call for each line.
-/

namespace SecdMachine

structure Layout where
  lines : List String := []
  line : String := ""
  deriving DecidableEq, Repr

namespace Layout

def endLine (layout : Layout) : Layout :=
  { lines := layout.line.push '\n' :: layout.lines, line := "" }

def putChar (width : Nat) (layout : Layout) (char : Char) : Layout :=
  let layout := if layout.line.utf8ByteSize ≥ width then layout.endLine else layout
  { layout with line := layout.line.push char }

/-- Adds a word and the blank after it. The word goes on a new line if it does not fit on this one;
the blank may then start yet another. -/
def putWord (width : Nat) (layout : Layout) (text : String) : Layout :=
  let full := layout.line.utf8ByteSize > 0 &&
    layout.line.utf8ByteSize + text.utf8ByteSize > width
  let layout := if full then layout.endLine else layout
  putChar width { layout with line := layout.line ++ text } ' '

def put (width : Nat) (layout : Layout) : Piece → Layout
  | .word text => layout.putWord width text
  | .mark char => layout.putChar width char

end Layout

def defaultWidth : Nat := 60

/-- A writer over a sink: its settings, the line in progress, and the error of the first line that the
sink has refused. -/
structure Writer where
  width : Int := defaultWidth
  blankNil : Bool := true
  line : String := ""
  failure : Option String := none
  sink : Sink := {}
  deriving DecidableEq, Repr

namespace Writer

def lineWidth (writer : Writer) : Nat :=
  if writer.width ≤ 0 then defaultWidth else writer.width.toNat

def refused (writer : Writer) : Bool :=
  writer.failure.isSome

def send : Option String → Sink → List String → Option String × Sink
  | failure, sink, [] => (failure, sink)
  | some problem, sink, _ :: _ => (some problem, sink)
  | none, sink, line :: rest =>
      match sink.write line with
      | (failure, sink) => send failure sink rest

def put (writer : Writer) (store : Store) (value : Value) : Writer :=
  let layout := (store.pieces writer.blankNil value).foldl (Layout.put writer.lineWidth)
    { line := writer.line }
  match writer with
  | ⟨width, blankNil, _, failure, sink⟩ =>
      match send failure sink layout.lines.reverse with
      | (failure, sink) => ⟨width, blankNil, layout.line, failure, sink⟩

def flush : Writer → Writer
  | ⟨width, blankNil, line, failure, sink⟩ =>
      match send failure sink [line.push '\n'] with
      | (failure, sink) => ⟨width, blankNil, "", failure, sink⟩

def putLine (writer : Writer) (store : Store) (value : Value) : Writer :=
  (writer.put store value).flush

end Writer

end SecdMachine
