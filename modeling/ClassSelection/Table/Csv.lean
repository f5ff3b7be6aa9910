import ClassSelection.Csv.Record
import ClassSelection.Table.Basic
import ClassSelection.Table.Format

/-!
# Decision tables in CSV

The rules come first, a row for each condition and a column for each variable; after a blank line
come the filter lists, with their patterns always in quotes.
-/

namespace ClassSelection

/-- The rules: records that end with their lines, quoted where needed. -/
def Csv.ruleDialect : Csv.Dialect := {}

/-- The name of a filter list, followed by the comma before its patterns. -/
def Csv.listNameDialect : Csv.Dialect := { terminator := ',' }

def Csv.patternDialect : Csv.Dialect := { quoteAll := true }

def Rule.csvRows (rule : Rule) (subjects : List String) (style : ComparatorStyle) :
    List (List String) :=
  rule.alternatives.map fun condition =>
    rule.target :: (subjects.map fun subject => condition.cell subject style) ++
      [toString rule.sequence, if rule.hasExit then "Y" else "N", toString rule.line]

def FilterList.csvLine (list : FilterList) : List Char :=
  Csv.listNameDialect.record [list.name] ++ Csv.patternDialect.record [list.included, list.excluded]

namespace DecisionTable

def csvHeader (table : DecisionTable) : List String :=
  table.routineName :: table.registry.names ++ ["Seq", "Exit", "LineNum"]

def csvRows (table : DecisionTable) (style : ComparatorStyle) : List (List String) :=
  table.rules.flatMap fun rule => rule.csvRows table.registry.names style

def csvFilterLists (table : DecisionTable) : List Char :=
  Csv.ruleDialect.record ["FILTLISTS"] ++ Csv.ruleDialect.record ["NAME", "INCLUDE", "EXCLUDE"] ++
    table.filterLists.flatMap FilterList.csvLine

def toCsv (table : DecisionTable) (style : ComparatorStyle) : Except Error String :=
  match Csv.ruleDialect.table table.csvHeader (table.csvRows style) with
  | .ok rules => .ok (String.ofList (rules ++ '\n' :: table.csvFilterLists))
  | .error refusal => .error (.csv refusal.message)

end DecisionTable

end ClassSelection
