/-!
# Anomalies

Problems in a routine that are reported without ending the extraction.
-/

namespace ClassSelection

inductive AnomalyKind where
  /-- A statement does not start with a keyword. -/
  | unknownKeyword (keyword : String)
  /-- A comparison has its variable on the right, as when a value lacks its `&`. -/
  | swappedOperands (left comparator right : String)
  deriving DecidableEq, Repr

structure Anomaly where
  line : Nat
  kind : AnomalyKind
  deriving DecidableEq, Repr

namespace Anomaly

def message (anomaly : Anomaly) : String :=
  let place := "Error @" ++ toString anomaly.line ++ ": "
  match anomaly.kind with
  | .unknownKeyword keyword => place ++ "Unknown keyword : " ++ keyword ++ "... Moving on."
  | .swappedOperands left comparator right =>
    place ++ "Possible missed &: " ++ left ++ " " ++ comparator ++ " " ++ right

end Anomaly

end ClassSelection
