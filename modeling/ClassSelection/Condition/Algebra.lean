import ClassSelection.Condition.Basic

/-!
# Conjunction and negation of alternatives

Two ways to form the conjunction of two sets of alternatives. `distribute` is exact: one condition
for each choice of a condition on either side. `merge` keeps one condition for each condition on the
left, which takes in all tests of the right side; the result is smaller and at least as strong.
-/

namespace ClassSelection

/-- How the conjunction of two sets of alternatives is formed. -/
inductive CombineMode where
  /-- One condition for each condition on the left. -/
  | merge
  /-- One condition for each pair of conditions. -/
  | distribute
  deriving DecidableEq, Repr, Inhabited

namespace CombineMode

def name : CombineMode → String
  | merge => "merge"
  | distribute => "distribute"

/-- The conjunction of two sets of alternatives. A side without alternatives is no constraint, so
the other side is the result. -/
def combine (mode : CombineMode) (left right : Alternatives) : Alternatives :=
  if left.isEmpty then right
  else if right.isEmpty then left
  else
    match mode with
    | merge => left.map fun l => right.foldl (fun merged r => (merged.merge l).merge r) .empty
    | distribute => left.flatMap fun l => right.map fun r => l.merge r

def negate (mode : CombineMode) (alternatives : Alternatives) : Alternatives :=
  alternatives.foldl (fun result condition => mode.combine condition.negate result) []

/-- The conjunction of several sets of alternatives; later ones come first in each condition. -/
def flatten (mode : CombineMode) (entries : List Alternatives) : Alternatives :=
  entries.foldl (fun result entry => mode.combine entry result) []

@[simp] theorem combine_nil_left (mode : CombineMode) (right : Alternatives) :
    mode.combine [] right = right := rfl

@[simp] theorem combine_nil_right (mode : CombineMode) (left : Alternatives) :
    mode.combine left [] = left := by
  cases left <;> rfl

end CombineMode

namespace Alternatives

/-- Whether two sets of alternatives list the same conditions in the same order, each up to the
order of its tests. -/
def sameTests (left right : Alternatives) : Bool :=
  left.isEqv right Condition.sameTests

end Alternatives

end ClassSelection
