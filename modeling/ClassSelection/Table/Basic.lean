import ClassSelection.Condition.Algebra
import ClassSelection.Condition.Registry
import ClassSelection.Diagnostic.Anomaly
import ClassSelection.Routine.Declaration

/-!
# Decision tables

What a routine comes to: one rule for each SET statement, free of nesting.
-/

namespace ClassSelection

structure Rule where
  target : String
  /-- The conditions, one of which has to hold; none for an unconditional assignment. -/
  alternatives : Alternatives
  /-- The number of the rule in the routine, from 1. 32 bits hold it for fewer than `2 ^ 32`
  rules. -/
  sequence : Nat
  line : Nat
  /-- Whether an EXIT follows before the next assignment. -/
  hasExit : Bool
  deriving DecidableEq, Repr

structure DecisionTable where
  kind : Option RoutineKind
  registry : Registry
  rules : List Rule
  filterLists : List FilterList
  anomalies : List Anomaly
  deriving DecidableEq, Repr

namespace DecisionTable

/-- The name of the routine, empty if it has no PROC statement. -/
def routineName (table : DecisionTable) : String :=
  (table.kind.map RoutineKind.name).getD ""

/-- The number of rows that the rules take: one for each condition. -/
def rowCount (table : DecisionTable) : Nat :=
  (table.rules.flatMap Rule.alternatives).length

end DecisionTable

end ClassSelection
