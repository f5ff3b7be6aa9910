import ClassSelection.File.Access
import ClassSelection.File.Path
import ClassSelection.Settings
import ClassSelection.Table.Unfold
import ClassSelection.Table.Write
import ClassSelection.Text.Encoding

/-!
# Extraction

From a routine in a file to its decision table in another. A file is written only when the routine
has been read without error.
-/

namespace ClassSelection

variable {m : Type → Type} [Monad m] [FileAccess m]

def readInput (path : String) : ExceptT Error m ByteArray := do
  match ← (FileAccess.read path : m (Except FileError ByteArray)) with
  | .ok content => return content
  | .error cause => throw (.input path cause)

def readSource (path : String) : ExceptT Error m String := do
  return Text.decode (← readInput path)

def readConfig (path : String) : ExceptT Error m Overrides := do
  match String.fromUTF8? (← readInput path) with
  | some text => MonadExcept.ofExcept (Overrides.parse text)
  | none => throw (.input path .notUtf8)

structure Summary where
  kind : Option RoutineKind
  rules : Nat
  rows : Nat
  columns : Nat
  filterLists : Nat
  anomalies : Nat
  output : String
  deriving DecidableEq, Repr

def DecisionTable.summary (table : DecisionTable) (output : String) : Summary where
  kind := table.kind
  rules := table.rules.length
  rows := table.rowCount
  columns := table.registry.size
  filterLists := table.filterLists.length
  anomalies := table.anomalies.length
  output

/-- The path of the table when none is given: the name of the input with the format's extension. -/
def defaultOutput (input : String) (format : OutputFormat) : String :=
  Path.withExtension input format.extension

def extract (input : String) (output : Option String) (settings : Settings) :
    ExceptT Error m Summary := do
  let source ← readSource input
  let table ← MonadExcept.ofExcept (DecisionTable.ofSource settings.combineMode source)
  let path := output.getD (defaultOutput input settings.format)
  let text ← MonadExcept.ofExcept (table.write settings.format settings.comparatorStyle)
  match ← (FileAccess.write path text.toUTF8 : m (Except FileError Unit)) with
  | .ok () => return table.summary path
  | .error cause => throw (.output path cause)

end ClassSelection
