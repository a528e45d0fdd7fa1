import EnumHelpers.Cli.Run

/-!
# Command line — reach

The files that a run may look at, known before it starts.  The files that the arguments name come
first; the settings that these give then say which directory is looked into.  A run that is given a
tree with these files answers as it would with all files that there are.
-/

namespace EnumHelpers.Cli

/-- The options that arguments give; none for arguments that ask for no generation. -/
def optionsOf? (arguments : List String) : Option Options :=
  match readRequest arguments with
  | .ok (.run o) => some o
  | _ => none

/-- The files that options name. -/
def Options.namedFiles (o : Options) : List File.Path :=
  ([o.config, o.symbols].filterMap id).map File.Path.ofString

/-- The directory that options ask for, given the files that they name. -/
def Options.directoryIn? (o : Options) (named : File.Tree) : Option File.Path :=
  match Settings.load named o.overrides o.config with
  | .ok s => some (File.Path.ofString s.directory)
  | .error _ => none

/-- The file that a run with the given options writes, given the files that these name. -/
def Options.targetIn? (o : Options) (named : File.Tree) : Option File.Path :=
  match Settings.load named o.overrides o.config with
  | .ok s => if s.typeNames.isEmpty then none else some (outputPath s)
  | .error _ => none

/-- The files of `after` that are not the same in `before`. -/
def changes (before after : File.Tree) : List (List String × File.Node) :=
  after.nodes.filter fun (steps, node) => OrderedMap.get? steps before.nodes != some node

end EnumHelpers.Cli
