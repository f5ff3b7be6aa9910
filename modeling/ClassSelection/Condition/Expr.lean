import ClassSelection.Condition.Algebra

/-!
# Guard expressions

A guard as it is written, tests joined by AND and OR, and the alternatives it stands for. Only AND
depends on the combine mode.
-/

namespace ClassSelection

inductive Expr where
  | test (t : Test)
  | both (left right : Expr)
  | either (left right : Expr)
  deriving DecidableEq, Repr

namespace Expr

def alternatives (mode : CombineMode) : Expr → Alternatives
  | test t => [.single t]
  | both left right => mode.combine (left.alternatives mode) (right.alternatives mode)
  | either left right => left.alternatives mode ++ right.alternatives mode

/-- The guard that the subject is the first of the values or one of the others. -/
def oneOf (subject : String) (first : String) : List String → Expr
  | [] => test ⟨subject, .eq, first⟩
  | second :: values => either (test ⟨subject, .eq, first⟩) (oneOf subject second values)

end Expr

end ClassSelection
