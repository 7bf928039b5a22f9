import SecdMachine.FileTree
import SecdMachine.LineSource

/-!
The console: lines typed after a prompt, and a history of them that is kept in a file from one
session to the next. Lines come through a buffer of fixed size; one that does not fit is handed out
in parts, each as long as the buffer.
-/

namespace SecdMachine

structure BoundedLine where
  bytes : Text.Bytes
  complete : Bool
  deriving DecidableEq, Repr

namespace BoundedLine

def bufferSize : Nat := 4096

def withoutReturn : Text.Bytes → Text.Bytes
  | 0x0D :: rest => rest
  | reversed => reversed

/-- The lines of a stream of which `reversed` is already in the buffer, with room for `room` bytes
and one more. A carriage return that would end a full buffer waits for the next part, since a newline
may follow. -/
def split (room : Nat) (reversed : Text.Bytes) : Text.Bytes → List BoundedLine
  | [] => if reversed.isEmpty then [] else [⟨reversed.reverse, true⟩]
  | byte :: rest =>
      if byte = 0x0A then
        ⟨(withoutReturn reversed).reverse, true⟩ :: split (bufferSize - 1) [] rest
      else
        match room with
        | room + 1 => split room (byte :: reversed) rest
        | 0 =>
            if byte = 0x0D then ⟨reversed.reverse, false⟩ :: split (bufferSize - 2) [byte] rest
            else ⟨(byte :: reversed).reverse, false⟩ :: split (bufferSize - 1) [] rest

def ofStream (bytes : Text.Bytes) : List BoundedLine :=
  split (bufferSize - 1) [] bytes

end BoundedLine

structure History where
  lines : List Text.Bytes := []
  deriving DecidableEq, Repr

namespace History

def limit : Nat := 1000

def newest (lines : List Text.Bytes) : History :=
  ⟨lines.drop (lines.length - limit)⟩

def ofFile (content : Text.Bytes) : History :=
  newest (((BoundedLine.ofStream content).takeWhile fun line =>
    line.complete && Text.wellFormed line.bytes).map BoundedLine.bytes)

def append (history : History) (line : Text.Bytes) : History :=
  if history.lines.getLast? = some line then history else newest (history.lines ++ [line])

def extend (history : History) (lines : List Text.Bytes) : History :=
  (lines.filter fun line => !Text.isBlankText (Text.decode line)).foldl append history

def content (history : History) : Text.Bytes :=
  history.lines.flatMap fun line => line ++ [0x0A]

end History

structure Console where
  lines : List Text.Bytes
  historyPath : String
  history : History
  deriving DecidableEq, Repr

namespace Console

def start (tree : FileTree) (historyPath : String) (typed : Text.Bytes) : Console :=
  let path := PathName.expandHome tree.home historyPath
  { lines := (BoundedLine.ofStream typed).map BoundedLine.bytes
    historyPath := path
    history :=
      match tree.read path with
      | .ok content => .ofFile content
      | .error _ => {} }

def source (console : Console) : LineSource where
  pending := console.lines.map fun line => { line := Text.decode line }
  policy := .check

def delivered (console : Console) (source : LineSource) : List Text.Bytes :=
  console.lines.take (console.lines.length - source.pending.length)

def saved? (console : Console) (source : LineSource) : Option (String × Text.Bytes) :=
  if console.historyPath.isEmpty then none
  else
    some (console.historyPath, (console.history.extend (console.delivered source)).content)

end Console

end SecdMachine
