import SecdMachine.PathName
import SecdMachine.Text.Utf8

/-!
Files and directories as data. A path is followed component by component, so a missing directory or
a file in the middle is noticed even if a later double dot would cancel it.
-/

namespace SecdMachine

inductive FileNode where
  | directory
  | file (content : Text.Bytes)
  deriving DecidableEq, Repr

inductive FileError where
  | missing
  | notDirectory
  | isDirectory
  | invalid
  | nameTooLong
  deriving DecidableEq, Repr

namespace FileError

def message (path : String) : FileError → String
  | missing => "open " ++ path ++ ": no such file or directory"
  | notDirectory => "open " ++ path ++ ": not a directory"
  | isDirectory => "read " ++ path ++ ": is a directory"
  | invalid => "open " ++ path ++ ": invalid argument"
  | nameTooLong => "open " ++ path ++ ": file name too long"

end FileError

structure FileTree where
  nodes : List (List String × FileNode) := []
  current : List String := []
  home : String := ""
  deriving DecidableEq, Repr

namespace FileTree

def node? (tree : FileTree) (place : List String) : Option FileNode :=
  if place.isEmpty then some .directory else tree.nodes.lookup place

def nameLimit : Nat := 255

def pathLimit : Nat := 4095

def follow (tree : FileTree) : List String → List String → Except FileError (List String)
  | place, [] => .ok place
  | place, component :: rest =>
      match tree.node? place with
      | none => .error .missing
      | some (.file _) => .error .notDirectory
      | some .directory =>
          if component = "" || component = "." then tree.follow place rest
          else if component = ".." then tree.follow place.dropLast rest
          else if component.utf8ByteSize > nameLimit then .error .nameTooLong
          else tree.follow (place ++ [component]) rest

def place (tree : FileTree) (path : String) : Except FileError (List String) :=
  if path.isEmpty then .error .missing
  else if path.toList.contains (Char.ofNat 0) then .error .invalid
  else if path.utf8ByteSize > pathLimit then .error .nameTooLong
  else
    tree.follow (if PathName.isAbsolute path then [] else tree.current) (PathName.components path)

def read (tree : FileTree) (path : String) : Except FileError Text.Bytes := do
  let place ← tree.place path
  match tree.node? place with
  | none => .error .missing
  | some .directory => .error .isDirectory
  | some (.file content) => .ok content

def exists? (tree : FileTree) (path : String) : Bool :=
  match tree.place path with
  | .ok place => (tree.node? place).isSome
  | .error _ => false

/-- Replaces the content of a file, or makes a new one in an existing directory. A place that cannot
hold a file stays as it is. -/
def write (tree : FileTree) (path : String) (content : Text.Bytes) : FileTree :=
  match tree.place path with
  | .error _ => tree
  | .ok place =>
      match tree.node? place.dropLast, tree.node? place with
      | some .directory, some .directory => tree
      | some .directory, _ =>
          { tree with
            nodes := (place, .file content) :: tree.nodes.filter fun node => node.1 ≠ place }
      | _, _ => tree

end FileTree

end SecdMachine
