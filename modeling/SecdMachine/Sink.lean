/-!
Where text goes. A sink keeps the texts of the write calls it accepted, and may refuse every call
from a given number on, each with an error of its own.
-/

namespace SecdMachine

/-- The accepted writes, in order, how many the sink accepts at most, and the errors of the calls it
will refuse, in their order. Once they are used up, the usual error answers every refused call. -/
structure Sink where
  written : Array String := #[]
  capacity : Option Nat := none
  refusals : List String := []
  deriving DecidableEq, Repr

namespace Sink

def accepts (sink : Sink) : Bool :=
  match sink.capacity with
  | none => true
  | some capacity => sink.written.size < capacity

def refusal : String := "write refused"

def write (sink : Sink) (text : String) : Option String × Sink :=
  if sink.accepts then (none, { sink with written := sink.written.push text })
  else (some (sink.refusals.headD refusal), { sink with refusals := sink.refusals.tail })

def text (sink : Sink) : String :=
  String.join sink.written.toList

def textAfter (sink : Sink) (count : Nat) : String :=
  String.join (sink.written.toList.drop count)

end Sink

end SecdMachine
