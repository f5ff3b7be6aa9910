import ClassSelection.Table.Csv
import ClassSelection.Table.Json

/-!
# Writing tables

The text of a table in the chosen format.
-/

namespace ClassSelection

/-- The text of a table. The style of comparators concerns CSV alone. -/
def DecisionTable.write (table : DecisionTable) (format : OutputFormat) (style : ComparatorStyle) :
    Except Error String :=
  match format with
  | .csv => table.toCsv style
  | .json => .ok table.toJsonText

end ClassSelection
