import ClassSelection.Condition.Basic
import ClassSelection.Diagnostic.Error

/-!
# Output formats

The choices for the text of a table: its format, and the spelling of comparators in CSV cells.
-/

namespace ClassSelection

inductive OutputFormat where
  | csv
  | json
  deriving DecidableEq, Repr, Inhabited

/-- The name of a format, which is also the extension of its files. -/
def OutputFormat.extension : OutputFormat → String
  | csv => "csv"
  | json => "json"

inductive ComparatorStyle where
  | mnemonic
  | symbolic
  deriving DecidableEq, Repr, Inhabited

namespace ComparatorStyle

def name : ComparatorStyle → String
  | mnemonic => "mnemonic"
  | symbolic => "symbolic"

def spell : ComparatorStyle → Comparator → String
  | mnemonic, comparator => comparator.mnemonic
  | symbolic, comparator => comparator.symbol

/-- The text of a test in the column of its variable. A test for equality shows only the value. -/
def testText (style : ComparatorStyle) (test : Test) : String :=
  if test.comparator == .eq then test.value
  else style.spell test.comparator ++ " " ++ test.value

end ComparatorStyle

def Condition.cell (condition : Condition) (subject : String) (style : ComparatorStyle) : String :=
  "; ".intercalate ((condition.testsOf subject).map style.testText)

end ClassSelection
