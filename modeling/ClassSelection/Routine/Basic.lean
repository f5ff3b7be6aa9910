import ClassSelection.Reader.Statement

/-!
# Routines

A routine as a whole: its declarations, its statements, and what was odd about it.
-/

namespace ClassSelection

structure Routine where
  /-- The kind on its last PROC statement. -/
  kind : Option RoutineKind
  registry : Registry
  body : Statement
  filterLists : List FilterList
  anomalies : List Anomaly
  lastLine : Nat
  deriving DecidableEq, Repr

namespace Routine

def parse (source : String) : Except Error Routine :=
  match Reader.routineBody (Reading.ofSource source) with
  | .ok body reading =>
    .ok {
      kind := reading.kind
      registry := reading.registry
      body
      filterLists := reading.filterLists
      anomalies := reading.anomalies
      lastLine := reading.tokens.line }
  | .error error _ => .error error

end Routine

end ClassSelection
