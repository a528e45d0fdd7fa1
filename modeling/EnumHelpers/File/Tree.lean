import EnumHelpers.File.Path
import EnumHelpers.OrderedMap
import EnumHelpers.Text.Quoted
import EnumHelpers.Text.Utf8

/-!
# Files — a tree of files

The files around a run as a value: what stands at each place below the top of the tree, and which
place is the working directory.  Looking a path up goes from directory to directory, a step to the
parent included, and says why it fails: nothing is there, or a file stands where a directory is
needed.  A path with a root is looked up from the top, any other from the working directory; above
the top there is nothing, so a step up from there stays.  No file is made under a name with a NUL.
-/

namespace EnumHelpers.File

/-- What stands at a path. -/
inductive Node where
  | file (content : List Text.Glyph)
  | directory
  /-- A file that cannot be read, with the reason. -/
  | closed (reason : String)
  deriving DecidableEq, Repr

/-- Files and directories, by their steps from the top, and the steps to the working directory. -/
structure Tree where
  home : List String := []
  nodes : OrderedMap (List String) Node := []
  deriving DecidableEq, Repr

/-- Why an operation on a path fails. -/
inductive Trouble where
  | notThere
  | notADirectory
  | isADirectory
  | closed (reason : String)
  /-- The path has a NUL in it, so that no file can be made there. -/
  | nullCharacter
  deriving DecidableEq, Repr

/-- The wording of a trouble at a path. -/
def Trouble.message (path : Path) : Trouble → String
  | .notThere => "[Errno 2] No such file or directory: " ++ Text.quoted path.text
  | .notADirectory => "[Errno 20] Not a directory: " ++ Text.quoted path.text
  | .isADirectory => "[Errno 21] Is a directory: " ++ Text.quoted path.text
  | .closed reason => reason
  | .nullCharacter => "embedded null byte"

namespace Tree

/-- What stands at the given steps; at the top is a directory. -/
def nodeAt? (tree : Tree) (steps : List String) : Option Node :=
  if steps.isEmpty then some .directory else OrderedMap.get? steps tree.nodes

/-- The place, read backwards, that one step leads to. -/
def onward (here : List String) (step : String) : List String :=
  if step = ".." then here.tail else step :: here

/-- The place reached from one, read backwards, by further steps, and what stands there. -/
def walk (tree : Tree) : List String → List String → Except Trouble (List String × Node)
  | here, [] =>
    match nodeAt? tree here.reverse with
    | some node => .ok (here.reverse, node)
    | none => .error .notThere
  | here, step :: rest =>
    match nodeAt? tree here.reverse with
    | some .directory => walk tree (onward here step) rest
    | some _ => .error .notADirectory
    | none => .error .notThere

/-- The steps to where a path begins. -/
def origin (tree : Tree) (path : Path) : List String := if path.root = "" then tree.home else []

/-- What stands at a path. -/
def find (tree : Tree) (path : Path) : Except Trouble (List String × Node) :=
  walk tree (tree.origin path).reverse path.steps

/-- Whether something stands at a path. -/
def exists? (tree : Tree) (path : Path) : Bool :=
  match tree.find path with
  | .ok _ => true
  | .error _ => false

/-- The content of the file at a path. -/
def read (tree : Tree) (path : Path) : Except Trouble (List Text.Glyph) :=
  match tree.find path with
  | .ok (_, .file content) => .ok content
  | .ok (_, .directory) => .error .isADirectory
  | .ok (_, .closed reason) => .error (.closed reason)
  | .error trouble => .error trouble

/-- The names in the directory at the given steps, with what stands there. -/
def entries (tree : Tree) (steps : List String) : List (String × Node) :=
  tree.nodes.filterMap fun (path, node) =>
    match path.getLast? with
    | some name => if path.dropLast = steps then some (name, node) else none
    | none => none

/-- The tree with a node put at the given steps. -/
def put (tree : Tree) (steps : List String) (node : Node) : Tree :=
  { tree with nodes := OrderedMap.put steps node tree.nodes }

/-- The tree with a text written to the file at a path. -/
def write (tree : Tree) (path : Path) (text : String) : Except Trouble Tree :=
  if path.hasNull then .error .nullCharacter
  else
    match tree.find path with
    | .ok (_, .directory) => .error .isADirectory
    | .ok (steps, _) => .ok (tree.put steps (.file (Text.glyphsOfText text)))
    | .error trouble =>
      match path.steps.getLast? with
      | none => .error trouble
      | some name =>
        match tree.find ⟨path.root, path.steps.dropLast⟩ with
        | .ok (steps, .directory) =>
          if name = ".." then .error trouble
          else .ok (tree.put (steps ++ [name]) (.file (Text.glyphsOfText text)))
        | .ok _ => .error .notADirectory
        | .error trouble => .error trouble

/-- The tree with directories at the given steps and at all those above them. -/
def addDirectories (tree : Tree) (steps : List String) : Tree :=
  (List.range steps.length).foldl
    (fun t k =>
      let path := steps.take (k + 1)
      if OrderedMap.has path t.nodes then t else t.put path .directory) tree

/-- The tree with directories at all places that further steps lead through and to. -/
def addWay (tree : Tree) (here : List String) : List String → Tree
  | [] => tree.addDirectories here.reverse
  | step :: rest => addWay (tree.addDirectories here.reverse) (onward here step) rest

/-- A tree with nothing but a working directory. -/
def ofHome (home : List String) : Tree := addDirectories { home } home

/-- The tree with a file, or for a text that ends in a slash a directory, and all the
directories on the way to it. -/
def add (tree : Tree) (path : String) (content : List Text.Glyph) : Tree :=
  let p := Path.ofString path
  let here := (tree.origin p).reverse
  if path.toList.getLast? = some '/' then tree.addWay here p.steps
  else (tree.addWay here p.steps.dropLast).put (p.steps.foldl onward here).reverse (.file content)

end Tree
end EnumHelpers.File
