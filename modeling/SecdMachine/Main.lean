import SecdMachine.Command

/-!
The program. It takes a picture of the files that the command may look at, runs the command on the
picture, and then writes what the command decided.
-/

namespace SecdMachine.Program

def directoryNodes (place : List String) : List (List String × FileNode) :=
  (List.range place.length).map fun count => (place.take (count + 1), .directory)

def nodesAt (place : List String) : IO (List (List String × FileNode)) := do
  try
    let content ← IO.FS.readBinFile (PathName.ofAbsolute place)
    return (place, .file content.toList) :: directoryNodes place.dropLast
  catch
    | .inappropriateType none .. => return directoryNodes place
    | .inappropriateType (some _) .. =>
        return (place.dropLast, .file []) :: directoryNodes place.dropLast.dropLast
    | _ => return []

def photograph (tree : FileTree) (path : String) : IO FileTree := do
  let place := PathName.absoluteComponents tree.current path
  let nodes ← nodesAt place
  let around ← nodesAt place.dropLast
  return { tree with nodes := nodes ++ around ++ tree.nodes }

def settingsPaths (tree : FileTree) (request : Command.Request) : List String :=
  if request.config.isEmpty then
    (List.range (tree.current.length + 1)).map fun count =>
      SettingsFile.pathIn (tree.current.reverse.drop count)
  else [request.config]

def inputPaths (tree : FileTree) (request : Command.Request) (settings : Settings) : List String :=
  request.compilerPath settings :: PathName.expandHome tree.home settings.history :: request.files

def takePicture (request : Command.Request) : IO FileTree := do
  let current := PathName.absoluteComponents [] (← IO.currentDir).toString
  let home := (← IO.getEnv "HOME").getD ""
  let tree : FileTree := { nodes := directoryNodes current, current := current, home := home }
  let tree ← (settingsPaths tree request).foldlM photograph tree
  match SettingsFile.choose tree request.config with
  | .error _ => return tree
  | .ok settings => (inputPaths tree request settings).foldlM photograph tree

partial def readToEnd (stream : IO.FS.Stream) (content : Array UInt8) : IO (Array UInt8) := do
  let block ← stream.read 65536
  if block.isEmpty then return content else readToEnd stream (content ++ block.data)

def readInput (request : Command.Request) : IO StandardInput := do
  let stdin ← IO.getStdin
  let content ← if request.files.length < 2 then readToEnd stdin #[] else pure #[]
  if ← stdin.isTty then return .terminal content.toList else return .stream content.toList

def freshName : IO String := do
  let digits := (← IO.getRandomBytes 16).toList.flatMap fun byte =>
    (Text.hexadecimal 2 byte.toNat).toList
  let group := fun (first count : Nat) => String.ofList ((digits.drop first).take count)
  return String.intercalate "-"
    [group 0 8, group 8 4, "4" ++ group 13 3, "8" ++ group 17 3, group 20 12]

def instructionBound : Nat := 4611686018427387904

def carryOut (outcome : Outcome) : IO Unit := do
  for (stream, text) in outcome.output do
    match stream with
    | .standard => IO.print text
    | .error => IO.eprint text
  match outcome.saved with
  | none => return
  | some (path, content) =>
      try IO.FS.writeBinFile path ⟨content.toArray⟩
      catch _ => return

def run (arguments : List String) : IO UInt32 := do
  let surroundings : Surroundings ←
    match Command.request arguments with
    | .error _ => pure ⟨{}, .stream [], "", 0⟩
    | .ok request => do
        let tree ← takePicture request
        let input ← readInput request
        pure ⟨tree, input, ← freshName, instructionBound⟩
  let outcome := Command.run surroundings arguments
  carryOut outcome
  return UInt32.ofNat outcome.status

end SecdMachine.Program

def main (arguments : List String) : IO UInt32 :=
  SecdMachine.Program.run arguments
