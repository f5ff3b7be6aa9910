import ClassSelection.File.Error

/-!
# Access to files

The two things that the program does with files.
-/

namespace ClassSelection

/-- Files that can be read and written by their paths. -/
class FileAccess (m : Type → Type) where
  read : String → m (Except FileError ByteArray)
  /-- Gives a file its content, new or in place of an old one. -/
  write : String → ByteArray → m (Except FileError Unit)

end ClassSelection
