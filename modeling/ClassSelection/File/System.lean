import ClassSelection.File.Access

/-!
# File systems

Directories and files as a value, with the rules by which a path leads to one of them.
-/

namespace ClassSelection

/-- The names on the way from the root to a directory or file. -/
abbrev Location := List String

def Location.path (location : Location) : List Location :=
  (List.range (location.length + 1)).map location.take

structure FileSystem where
  workingDirectory : Location
  directories : List Location
  files : List (Location × ByteArray)

namespace FileSystem

/-- Whether a directory is there. The root always is. -/
def hasDirectory (system : FileSystem) (location : Location) : Bool :=
  location.isEmpty || system.directories.contains location

def content? (system : FileSystem) (location : Location) : Option ByteArray :=
  system.files.lookup location

def putContent (location : Location) (content : ByteArray) :
    List (Location × ByteArray) → List (Location × ByteArray)
  | [] => [(location, content)]
  | file :: files =>
    if file.1 = location then (location, content) :: files
    else file :: putContent location content files

def put (system : FileSystem) (location : Location) (content : ByteArray) : FileSystem :=
  { system with files := putContent location content system.files }

def empty (workingDirectory : Location) : FileSystem where
  workingDirectory
  directories := Location.path workingDirectory
  files := []

def plant (system : FileSystem) (location : Location) (content : ByteArray) : FileSystem :=
  { system with
    directories := system.directories ++ Location.path location.dropLast }.put location content

/-! ## Paths -/

def maxNameBytes : Nat := 255

def maxPathBytes : Nat := 4096

inductive Target where
  | directory
  | file (location : Location)
  /-- A name that is free, in a directory that is there. -/
  | free (location : Location)
  deriving DecidableEq, Repr

def pieces : List Char → List (List Char)
  | [] => [[]]
  | '/' :: rest => [] :: pieces rest
  | c :: rest =>
    match pieces rest with
    | [] => [[c]]
    | first :: others => (c :: first) :: others

/-- Follows the pieces of a path from a directory. An empty piece and a single dot stay where they
are, and two dots lead to the parent directory. -/
def follow (system : FileSystem) (directory : Location) :
    List (List Char) → Except FileError Target
  | [] => .ok .directory
  | piece :: others =>
    let name := String.ofList piece
    if name == "" || name == "." then system.follow directory others
    else if name == ".." then system.follow directory.dropLast others
    else
      let location := directory ++ [name]
      if maxNameBytes < name.utf8ByteSize then .error .nameTooLong
      else if system.hasDirectory location then system.follow location others
      else
        match system.content? location, others with
        | some _, [] => .ok (.file location)
        | some _, _ => .error .notDirectory
        | none, [] => .ok (.free location)
        | none, _ => .error .notFound

/-- The pieces of a path that is fit to be followed. The length of the path is limited, slashes
and dots included. -/
def pathPieces (path : String) : Except FileError (List (List Char)) :=
  if path.toList.contains '\x00' then .error .nulInName
  else if path.isEmpty then .error .notFound
  else if maxPathBytes ≤ path.utf8ByteSize then .error .nameTooLong
  else .ok (pieces path.toList)

def origin (system : FileSystem) (path : String) : Location :=
  if path.toList.head? == some '/' then [] else system.workingDirectory

def resolve (system : FileSystem) (path : String) : Except FileError Target := do
  system.follow (system.origin path) (← pathPieces path)

/-- What a path leads to where a file is to be written. A path with a slash at its end can only mean
a directory, whatever its last name is: that name is not looked up, and only the way to it has to
lead through directories. -/
def resolveForWriting (system : FileSystem) (path : String) : Except FileError Target := do
  let pieces ← pathPieces path
  match pieces.reverse with
  | [] :: others =>
    let way := (others.dropWhile List.isEmpty).tail.reverse
    system.follow (system.origin path) (way ++ [[]])
  | _ => system.follow (system.origin path) pieces

def read (system : FileSystem) (path : String) : Except FileError ByteArray := do
  match ← system.resolve path with
  | .directory => throw .isDirectory
  | .file location => return (system.content? location).getD .empty
  | .free _ => throw .notFound

def write (system : FileSystem) (path : String) (content : ByteArray) :
    Except FileError FileSystem := do
  match ← system.resolveForWriting path with
  | .directory => throw .isDirectory
  | .file location | .free location => return system.put location content

end FileSystem

instance : FileAccess (StateM FileSystem) where
  read path := do
    return (← get).read path
  write path content := do
    match (← get).write path content with
    | .ok after =>
      set after
      return .ok ()
    | .error cause => return .error cause

end ClassSelection
