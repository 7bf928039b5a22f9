import SecdMachine.Toml.Statement

/-!
What the statements of a settings document mean together. Statements fill a tree of tables from top
to bottom. A table that came into being only because something below it was named is implicit, and
may still be defined once; a second definition of anything else makes the document invalid.
-/

namespace SecdMachine.Toml

/-- A value of a document. Elements of arrays, floats and times carry no value. Of an array of
tables the last one is kept, since only that one can be named. -/
inductive Node where
  | string (text : String)
  | integer (number : Int64)
  | boolean (value : Bool)
  | scalar
  | array
  | tables (last : List (String × Node))
  | table (entries : List (String × Node))

def Node.isArray : Node → Bool
  | array => true
  | _ => false

abbrev Entries := List (String × Node)

namespace Entries

def put (name : String) (node : Node) : Entries → Entries
  | [] => [(name, node)]
  | entry :: rest => if entry.1 = name then (name, node) :: rest else entry :: put name node rest

def table? : Key → Entries → Option Entries
  | [], entries => some entries
  | name :: key, entries =>
      match entries.lookup name with
      | some (.table inner) => table? key inner
      | some (.tables last) => table? key last
      | _ => none

def change (alter : Entries → Entries) : Key → Entries → Entries
  | [], entries => alter entries
  | name :: key, entries =>
      match entries.lookup name with
      | some (.table inner) => put name (.table (change alter key inner)) entries
      | some (.tables last) => put name (.tables (change alter key last)) entries
      | _ => entries

def insert? (node : Node) : Key → Entries → Option Entries
  | [], _ => none
  | [name], entries => some (put name node entries)
  | name :: key, entries =>
      match entries.lookup name with
      | none => do
          let inner ← insert? node key []
          return put name (.table inner) entries
      | some (.table inner) => do
          let inner ← insert? node key inner
          return put name (.table inner) entries
      | some _ => none

def find? : Key → Entries → Option Node
  | [], _ => none
  | [name], entries => entries.lookup name
  | name :: key, entries =>
      match entries.lookup name with
      | some (.table inner) => find? key inner
      | _ => none

end Entries

structure Document where
  entries : Entries := []
  implicit : List Key := []
  arrays : List Key := []
  named : Array Key := #[]

namespace Document

abbrev Build := StateT Document Option

def name (key : Key) : Build Unit :=
  modify fun document => { document with named := document.named.push key }

def addImplicit (key : Key) : Build Unit :=
  modify fun document => { document with implicit := key :: document.implicit }

def removeImplicit (key : Key) : Build Unit :=
  modify fun document => { document with implicit := document.implicit.filter (· ≠ key) }

def kindKey (context : Key) (name : String) : Key :=
  if !name.isEmpty then context ++ [name]
  else if context.isEmpty then [""]
  else context

def setArray (context : Key) (name : String) (isArray : Bool) : Build Unit :=
  modify fun document =>
    let key := kindKey context name
    let others := document.arrays.filter (· ≠ key)
    { document with arrays := if isArray then key :: others else others }

def put (context : Key) (name : String) (node : Node) : Build Unit :=
  modify fun document =>
    { document with entries := document.entries.change (Entries.put name node) context }

/-- Defines a name in the table `context`. A name that has a value already must be implicit, and
becomes explicit. It keeps the table that it is, unless an array was noted for it: then it gets the
new value. -/
def define (context : Key) (name : String) (node : Node) : Build Unit := do
  let document ← get
  let table ← document.entries.table? context
  let key := context ++ [name]
  if (table.lookup name).isNone then put context name node
  else if document.implicit.contains key then
    removeImplicit key
    if document.arrays.contains key then put context name node
  else failure

def openParents (context : Key) : Key → Build Unit
  | [] => return
  | name :: key => do
      let document ← get
      let table ← document.entries.table? context
      if (table.lookup name).isNone then
        addImplicit (context ++ [name])
        put context name (.table [])
      openParents (context ++ [name]) key

def openTable (key : Key) : Build Unit := do
  openParents [] key.dropLast
  define key.dropLast (key.getLastD "") (.table [])

def openElement (key : Key) : Build Unit := do
  openParents [] key.dropLast
  let name := key.getLastD ""
  let document ← get
  let table ← document.entries.table? key.dropLast
  match table.lookup name with
  | none | some (.tables _) => put key.dropLast name (.tables [])
  | some _ => failure

def openDotted (context : Key) : Key → Build Key
  | [] => return context
  | [_] => return context
  | name :: key => do
      addImplicit (context ++ [name])
      openTable (context ++ [name])
      openDotted (context ++ [name]) key

def assign (context key : Key) (value : Key → String → Build Node) : Build Node := do
  let context ← openDotted context key
  let last := key.getLastD ""
  name (context ++ [last])
  let node ← value context last
  define context last node
  setArray context last node.isArray
  return node

mutual

def evaluate (context : Key) (name : String) (inArray : Bool) : Expression → Build Node
  | .string text => return .string text
  | .integer number => return .integer number
  | .boolean value => return .boolean value
  | .scalar => return .scalar
  | .array elements => do
      setArray context name true
      evaluateElements context name elements
      return .array
  | .table entries => do
      let key := context ++ [name]
      addImplicit key
      if inArray then openElement key else openTable key
      let entries ← evaluateEntries key entries []
      return .table entries

def evaluateElements (context : Key) (name : String) : List Expression → Build Unit
  | [] => return
  | element :: rest => do
      discard <| evaluate context name true element
      evaluateElements context name rest

def evaluateEntries (context : Key) : List (Key × Expression) → Entries → Build Entries
  | [], entries => return entries
  | (key, expression) :: rest, entries => do
      let node ← assign context key fun context name => evaluate context name false expression
      let entries ← entries.insert? node key
      evaluateEntries context rest entries

end

def carryOut (context : Key) : List Statement → Build Unit
  | [] => return
  | .heading key :: rest => do
      openTable key
      setArray key "" false
      name key
      carryOut key rest
  | .arrayHeading key :: rest => do
      openElement key
      setArray key "" false
      name key
      carryOut key rest
  | .assignment key expression :: rest => do
      discard <| assign context key fun context name => evaluate context name false expression
      carryOut context rest

def ofStatements? (statements : List Statement) : Option Document :=
  ((carryOut [] statements).run {}).map Prod.snd

def parse? (bytes : Text.Bytes) : Option Document := do
  let statements ← Toml.parse? bytes
  ofStatements? statements

def find? (document : Document) (key : Key) : Option Node :=
  document.entries.find? key

end Document

end SecdMachine.Toml
