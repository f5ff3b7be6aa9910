/-!
# Paths

The file name at the end of a path, and paths with another extension. Slashes and single dots after
the name do not count.
-/

namespace ClassSelection.Path

/-- Drops the slashes and single dots at the end of a path, which is given from its end. -/
def dropTrailing : List Char → List Char
  | '/' :: rest => dropTrailing rest
  | '.' :: '/' :: rest => dropTrailing rest
  | rest => rest

structure Split where
  /-- The path up to the name, with its last slash. -/
  parent : List Char
  name : List Char
  deriving DecidableEq, Repr

/-- Splits off the file name. A path to the root, to the current directory or to a parent directory
has none. -/
def split? (path : List Char) : Option Split :=
  let reversed := dropTrailing path.reverse
  let name := (reversed.takeWhile (· != '/')).reverse
  if name == [] || name == ['.'] || name == ['.', '.'] then none
  else some ⟨(reversed.dropWhile (· != '/')).reverse, name⟩

/-- Splits a file name at its last dot into stem and extension. A dot at its beginning starts no
extension. -/
def splitExtension (name : List Char) : List Char × Option (List Char) :=
  let reversed := name.reverse
  let extension := (reversed.takeWhile (· != '.')).reverse
  match reversed.dropWhile (· != '.') with
  | [] | [_] => (name, none)
  | _ :: stem => (stem.reverse, some extension)

def replaceAfterStem (path extension : List Char) : List Char :=
  match split? path with
  | none => path
  | some split => split.parent ++ (splitExtension split.name).1 ++ '.' :: extension

/-- The path with another extension. The old one is cut off at the end of the path first, so that
of a name such as `..x` only the parent directory is left. -/
def withExtension (path extension : String) : String :=
  let chars := path.toList
  let old := (split? chars).bind fun split => (splitExtension split.name).2
  let kept := chars.take (chars.length - (old.getD []).length)
  String.ofList (replaceAfterStem kept extension.toList)

end ClassSelection.Path
