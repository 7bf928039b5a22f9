import SecdMachine.FileTree
import SecdMachine.SettingsDecoder

/-!
Settings files: how one is read, what is wrong with it, and which one counts. The nearest file wins,
from a directory upwards, and an invalid one is an error rather than passed over.
-/

namespace SecdMachine

inductive SettingsError where
  | unreadable (path : String) (error : FileError)
  | invalid (path : String)
  | unknownKey (path : String) (key : Toml.Key)
  | negativeWidth (path : String) (width : Int)
  | negativeLimit (path : String) (limit : Int)
  deriving DecidableEq, Repr

namespace SettingsError

def message : SettingsError → String
  | unreadable path error => "manifest: cannot read " ++ path ++ ": " ++ error.message path
  | invalid path => "manifest: parse error in " ++ path
  | unknownKey path key => "manifest: unknown key " ++ key.text ++ " in " ++ path
  | negativeWidth path width =>
      "manifest: " ++ path ++ ": writer width " ++ toString width ++ " is negative"
  | negativeLimit path limit =>
      "manifest: " ++ path ++ ": machine max-steps " ++ toString limit ++ " is negative"

end SettingsError

namespace SettingsFile

def fileName : String := "lispkit.toml"

def check (path directory : String) (decoded : Settings.Decoded) : Except SettingsError Settings :=
  match decoded.undecoded with
  | key :: _ => .error (.unknownKey path key)
  | [] =>
      let settings := { decoded.settings with directory := directory }.withDefaults decoded.isDefined
      if settings.width < 0 then .error (.negativeWidth path settings.width)
      else if settings.maxSteps < 0 then .error (.negativeLimit path settings.maxSteps)
      else .ok settings

def loadBy (decoder : Settings.Decoder) (tree : FileTree) (path : String) :
    Except SettingsError Settings :=
  match tree.read path with
  | .error error => .error (.unreadable path error)
  | .ok content =>
      match decoder content with
      | none => .error (.invalid path)
      | some decoded =>
          check path (PathName.absolute tree.current (PathName.directory path)) decoded

def load (tree : FileTree) (path : String) : Except SettingsError Settings :=
  loadBy Settings.decoder tree path

def loadFrom (tree : FileTree) (directory : String) : Except SettingsError Settings :=
  load tree (PathName.join directory fileName)

def pathIn (reversed : List String) : String :=
  PathName.join (PathName.ofAbsolute reversed.reverse) fileName

def nearest? (tree : FileTree) : List String → Option String
  | [] => if tree.exists? (pathIn []) then some (pathIn []) else none
  | name :: rest =>
      if tree.exists? (pathIn (name :: rest)) then some (pathIn (name :: rest))
      else nearest? tree rest

def find (tree : FileTree) (start : String) : Except SettingsError (Option Settings) :=
  match nearest? tree (PathName.absoluteComponents tree.current start).reverse with
  | some path => (load tree path).map some
  | none => .ok none

def choose (tree : FileTree) (path : String) : Except SettingsError Settings := do
  if !path.isEmpty then load tree path
  else
    match ← find tree "." with
    | some settings => return settings
    | none => return .ofDirectory (PathName.ofAbsolute tree.current)

end SettingsFile

end SecdMachine
