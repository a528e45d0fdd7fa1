import EnumHelpers.Cli.Reach
import EnumHelpers.Cli.Run
import EnumHelpers.Platform.Target

/-!
# Command line — the program

The command in the process that it runs in.  What a run does is `Cli.run`; here the files within
its reach are read beforehand, and its text and the file that it changed are written afterwards.
The program starts no other program and opens no connection: to a run the formatter is missing,
and no address answers.
-/

namespace EnumHelpers.Cli

/-- A tree with nothing but the working directory of the process. -/
def workingDirectory : IO File.Tree := do
  return .ofHome (File.Path.ofString (← IO.currentDir).toString).steps

/-- A tree with one more file, when there is one at the path. -/
def addFile (tree : File.Tree) (path : File.Path) : IO File.Tree := do
  match ← (IO.FS.readBinFile path.text).toBaseIO with
  | .ok bytes => return tree.add path.text (Text.glyphsOfBytes (bytes.toList.map UInt8.toNat))
  | .error _ => return tree

/-- A tree with the files of one more directory, when there is one at the path. -/
def addDirectory (tree : File.Tree) (path : File.Path) : IO File.Tree := do
  match ← (do (← IO.FS.realPath path.text).readDir).toBaseIO with
  | .ok entries =>
    entries.foldlM (fun tree entry => addFile tree (path.join ⟨"", [entry.fileName]⟩))
      (tree.addWay (tree.origin path).reverse path.steps)
  | .error _ => return tree

/-- A tree with what stands at a path that is to be written, and in the directory of it. -/
def addTarget (tree : File.Tree) (path : File.Path) : IO File.Tree := do
  let around ← addDirectory tree ⟨path.root, path.steps.dropLast⟩
  addFile (← addDirectory around path) path

/-- The files within the reach of options. -/
def filesFor (o : Options) : IO File.Tree := do
  let named ← o.namedFiles.foldlM addFile (← workingDirectory)
  let searched ← (o.directoryIn? named).toList.foldlM addDirectory named
  (o.targetIn? named).toList.foldlM addTarget searched

/-- The variables of the environment that say what platform is built for. -/
def platformVariables : IO (OrderedMap String String) := do
  let os ← IO.getEnv "GOOS"
  let arch ← IO.getEnv "GOARCH"
  return (os.map (("GOOS", ·))).toList ++ (arch.map (("GOARCH", ·))).toList

/-- Writes a file that a run has changed. -/
def store (change : List String × File.Node) : IO Unit :=
  match change with
  | (steps, .file content) =>
    IO.FS.writeFile (File.Path.text ⟨"/", steps⟩) (Text.replacedText content)
  | _ => pure ()

/-- Runs the command, and gives its exit status. -/
def execute (arguments : List String) : IO UInt32 := do
  let tree ← match optionsOf? arguments with
    | some o => filesFor o
    | none => workingDirectory
  let environment ← platformVariables
  let result := run ⟨tree, Target.ofEnvironment environment "linux" "x86_64", .missing,
    .noConnection⟩ arguments
  (changes tree result.tree).forM store
  IO.print result.output
  result.messages.forM IO.eprintln
  match result.ending with
  | .exited status => return UInt32.ofNat status
  | .escaped cause =>
    IO.eprintln cause.message
    return 1

end EnumHelpers.Cli

/-- Runs the command of the process. -/
def main (arguments : List String) : IO UInt32 := EnumHelpers.Cli.execute arguments
