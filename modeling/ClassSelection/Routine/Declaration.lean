/-!
# Routine kinds and filter lists

What a routine declares: on its PROC statement the variable that it sets, and in FILTLIST
statements named lists of patterns.
-/

namespace ClassSelection

/-- The four kinds of routine, one for each variable that a routine can set. -/
inductive RoutineKind where
  | storageClass
  | dataClass
  | managementClass
  | storageGroup
  deriving DecidableEq, Repr

namespace RoutineKind

/-- The kind of a routine name, which may carry the `&` of the variable. -/
def ofName? (name : String) : Option RoutineKind :=
  match name with
  | "STORCLAS" | "&STORCLAS" => some storageClass
  | "DATACLAS" | "&DATACLAS" => some dataClass
  | "MGMTCLAS" | "&MGMTCLAS" => some managementClass
  | "STORGRP" | "&STORGRP" => some storageGroup
  | _ => none

def name : RoutineKind → String
  | storageClass => "STORCLAS"
  | dataClass => "DATACLAS"
  | managementClass => "MGMTCLAS"
  | storageGroup => "STORGRP"

@[simp] theorem ofName?_name (kind : RoutineKind) : ofName? kind.name = some kind := by
  cases kind <;> rfl

end RoutineKind

/-- A FILTLIST declaration: its patterns as they are written, without spaces. -/
structure FilterList where
  name : String
  included : String
  excluded : String
  deriving DecidableEq, Repr

end ClassSelection
