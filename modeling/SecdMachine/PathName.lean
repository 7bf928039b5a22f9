/-!
Names of files and directories. A name is cut at slashes into components; cleaning it drops empty
components and dots and lets each double dot cancel the component before it.
-/

namespace SecdMachine.PathName

def splitChars : List Char → List (List Char)
  | [] => [[]]
  | char :: rest =>
      if char = '/' then [] :: splitChars rest
      else
        match splitChars rest with
        | [] => [[char]]
        | component :: components => (char :: component) :: components

def components (path : String) : List String :=
  (splitChars path.toList).map String.ofList

def isAbsolute (path : String) : Bool :=
  path.toList.head? = some '/'

/-- Adds a component to those before it, which stand in reverse order. A double dot at the root
stays there; before any other component of a relative path it is kept. -/
def addComponent (absolute : Bool) (reversed : List String) (component : String) : List String :=
  if component = "" || component = "." then reversed
  else if component = ".." then
    match reversed with
    | [] => if absolute then [] else [".."]
    | last :: rest => if last = ".." then ".." :: reversed else rest
  else component :: reversed

def cleanComponents (absolute : Bool) (components : List String) : List String :=
  (components.foldl (addComponent absolute) []).reverse

def ofAbsolute (components : List String) : String :=
  "/" ++ String.intercalate "/" components

def clean (path : String) : String :=
  let remaining := cleanComponents (isAbsolute path) (components path)
  if isAbsolute path then ofAbsolute remaining
  else if remaining.isEmpty then "."
  else String.intercalate "/" remaining

def join (directory path : String) : String :=
  if directory.isEmpty then (if path.isEmpty then "" else clean path)
  else clean (directory ++ "/" ++ path)

def directory (path : String) : String :=
  let upTo := (path.toList.reverse.dropWhile (· ≠ '/')).reverse
  clean (String.ofList upTo)

def absoluteComponents (current : List String) (path : String) : List String :=
  cleanComponents true (if isAbsolute path then components path else current ++ components path)

def absolute (current : List String) (path : String) : String :=
  ofAbsolute (absoluteComponents current path)

def expandHome (home path : String) : String :=
  if home.isEmpty then path
  else
    match path.toList with
    | ['~'] => join home ""
    | '~' :: '/' :: rest => join home (String.ofList ('/' :: rest))
    | _ => path

end SecdMachine.PathName
