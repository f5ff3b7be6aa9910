import ClassSelection.Condition.Expr

/-!
# Statements

What a routine does, as a tree. Declarations and WRITE statements leave nothing in it but `skip`.
-/

namespace ClassSelection

mutual

inductive Statement where
  | skip
  /-- An assignment `SET variable = value`, with the line of the value. -/
  | assign (value : String) (line : Nat)
  | exit
  | seq (first second : Statement)
  | block (body : Statement)
  | ifThen (guard : Expr) (body : Statement)
  | ifElse (guard : Expr) (body alternative : Statement)
  | select (branches : Branches)

/-- The branches of a SELECT, from one of them to the end. -/
inductive Branches where
  | done
  | otherwise (body : Statement)
  | when (guard : Expr) (body : Statement) (others : Branches)

end

deriving instance DecidableEq, Repr for Statement, Branches

namespace Statement

def sequence : List Statement → Statement
  | [] => skip
  | first :: others => seq first (sequence others)

end Statement

namespace Branches

def prepend (whens : List (Expr × Statement)) (others : Branches) : Branches :=
  whens.foldr (fun branch rest => when branch.1 branch.2 rest) others

end Branches

end ClassSelection
