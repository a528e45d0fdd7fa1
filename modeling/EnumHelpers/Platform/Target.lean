import EnumHelpers.OrderedMap
import EnumHelpers.Settings.Basic
import EnumHelpers.Text.Lines

/-!
# Platforms — targets

The operating system and architecture that a package is built for, the tags that are satisfied
there, and the files that their names select.  A name that ends in `_system`, `_architecture` or
`_system_architecture` selects a file for that platform; some systems also count as another.
-/

namespace EnumHelpers

/-- The operating system and architecture a package is built for. -/
structure Target where
  os : String
  arch : String
  deriving DecidableEq, Repr

namespace Target

/-- The operating systems that file names may speak of. -/
def knownSystems : List String := [
  "aix", "android", "darwin", "dragonfly", "freebsd", "hurd", "illumos", "ios", "js", "linux",
  "nacl", "netbsd", "openbsd", "plan9", "solaris", "wasip1", "windows", "zos"]

/-- The architectures that file names may speak of. -/
def knownArchitectures : List String := [
  "386", "amd64", "amd64p32", "arm", "armbe", "arm64", "arm64be", "loong64", "mips", "mipsle",
  "mips64", "mips64le", "mips64p32", "mips64p32le", "ppc", "ppc64", "ppc64le", "riscv",
  "riscv64", "s390", "s390x", "sparc", "sparc64", "wasm"]

/-- The operating systems that satisfy the tag `unix`. -/
def unixSystems : List String := [
  "aix", "android", "darwin", "dragonfly", "freebsd", "hurd", "illumos", "ios", "linux",
  "netbsd", "openbsd", "solaris"]

/-- The operating system that another one also counts as. -/
def impliedSystem? (os : String) : Option String :=
  if os = "android" then some "linux"
  else if os = "ios" then some "darwin"
  else if os = "illumos" then some "solaris"
  else none

/-- The tags of the language releases, all of which are satisfied. -/
def releaseTags : List String :=
  (List.range 39).map fun k => "go1." ++ toString (k + 1)

/-- The tags that are satisfied. -/
def tags (t : Target) : List String :=
  [t.os, t.arch, "gc"] ++ (impliedSystem? t.os).toList ++
    (if unixSystems.contains t.os then ["unix"] else []) ++ releaseTags

/-- The tags that are satisfied, in order and each once. -/
def sortedTags (t : Target) : List String := Settings.sortTexts t.tags.eraseDups

/-- Whether the system counts as `os`. -/
def countsAs (t : Target) (os : String) : Bool :=
  os == t.os || impliedSystem? t.os == some os

/-- Whether a text begins with another. -/
def startsWith (leading text : String) : Bool :=
  leading.toList.isPrefixOf text.toList

/-- Whether a text ends with another. -/
def endsWith (trailing text : String) : Bool :=
  trailing.toList.isSuffixOf text.toList

/-- A text without another at its end. -/
def withoutEnd (trailing text : String) : String :=
  if endsWith trailing text then
    String.ofList (text.toList.take (text.toList.length - trailing.toList.length))
  else text

/-- The parts of a file name after the first low line, without its suffixes. -/
def platformParts (fileName : String) : List String :=
  let stem := withoutEnd "_test" (withoutEnd ".go" fileName)
  ((Text.splitAtChar '_' stem.toList).drop 1).map String.ofList

/-- Whether the last parts of a file name, read backwards, select the target. -/
def selectedBy (t : Target) : List String → Bool
  | last :: second :: _ =>
    if knownSystems.contains second && knownArchitectures.contains last then
      t.countsAs second && last == t.arch
    else if knownSystems.contains last then t.countsAs last
    else if knownArchitectures.contains last then last == t.arch
    else true
  | [last] =>
    if knownSystems.contains last then t.countsAs last
    else if knownArchitectures.contains last then last == t.arch
    else true
  | [] => true

/-- Whether the name of a file selects the target. -/
def matchesFileName (t : Target) (fileName : String) : Bool :=
  !startsWith "_" fileName && !startsWith "." fileName &&
    t.selectedBy (platformParts fileName).reverse

/-- The operating system of a host, by the name it gives itself. -/
def hostSystem (platform : String) : String :=
  if ["win32", "cygwin", "msys"].any (startsWith · platform) then "windows"
  else
    match ["darwin", "freebsd", "openbsd", "netbsd", "dragonfly", "aix"].find?
        (startsWith · platform) with
    | some os => os
    | none => if startsWith "sunos" platform then "solaris" else "linux"

/-- The architectures of machines, by the names these give themselves. -/
def machineArchitectures : List (String × String) := [
  ("x86_64", "amd64"), ("amd64", "amd64"), ("i386", "386"), ("i686", "386"), ("x86", "386"),
  ("aarch64", "arm64"), ("arm64", "arm64"), ("armv7l", "arm"), ("armv6l", "arm"),
  ("ppc64le", "ppc64le"), ("ppc64", "ppc64"), ("s390x", "s390x"), ("riscv64", "riscv64"),
  ("loongarch64", "loong64")]

/-- The architecture of a host, by the name its machine gives itself. -/
def hostArchitecture (machine : String) : String :=
  (OrderedMap.get? (Text.lower machine) machineArchitectures).getD "amd64"

/-- A variable of the environment, when it is set and not empty. -/
def lookIn? (name : String) (environment : OrderedMap String String) : Option String :=
  match OrderedMap.get? name environment with
  | some value => if value = "" then none else some value
  | none => none

/-- The target that the environment asks for, the host's where it asks for none. -/
def ofEnvironment (environment : OrderedMap String String) (platform machine : String) :
    Target where
  os := (lookIn? "GOOS" environment).getD (hostSystem platform)
  arch := (lookIn? "GOARCH" environment).getD (hostArchitecture machine)

end Target
end EnumHelpers
