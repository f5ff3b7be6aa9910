import ClassSelection.Proofs.Source.Tree

/-!
# Where a statement ends for the reader

The last WHEN body of a SELECT takes its END, and the reader looks for another
branch behind it.  So a SELECT can be left early, with its END still to come,
or late, after a branch that belongs to the SELECT around it.  `Tree.ending`
tells which from the tree and from whether a branch follows.
-/

namespace ClassSelection.Source

inductive Ending where
  /-- At its last token. -/
  | exact
  /-- With the statement as written, and an END of it left over. -/
  | early
  /-- With another statement than the one that is written. -/
  | misread
  deriving DecidableEq, Repr

def Ending.left : Ending → List Token
  | early => [.word "END"]
  | exact | misread => []

def Body.isNil : Body → Bool
  | .nil => true
  | .cons .. => false

def Choices.isDone {subject : Option Variable} : Choices subject → Bool
  | .done => true
  | .otherwise _ | .when .. => false

def Choices.hasOtherwise : {subject : Option Variable} → Choices subject → Bool
  | _, .done => false
  | _, .otherwise _ => true
  | _, .when _ _ others => others.hasOtherwise

mutual

def Tree.ending (branchNext : Bool) : {o : Bool} → Tree o → Ending
  | _, .set .. => .exact
  | _, .ifThen _ body => body.ending branchNext
  | _, .ifElse _ body alternative =>
    match body.ending false with
    | .exact => alternative.ending branchNext
    | .early | .misread => .misread
  | _, .block body => body.ending false
  | _, .select _ choices => choices.ending branchNext

/-- The ending of the last statement of a block, if those before it end where they should. -/
def Body.ending (branchNext : Bool) : Body → Ending
  | .nil => .exact
  | .cons first others =>
    match first.ending (branchNext && others.isNil) with
    | .exact => others.ending branchNext
    | .early => if others.isNil then .early else .misread
    | .misread => .misread

/-- The ending of a SELECT.  A body in which an END is left over takes that END, so it goes
unnoticed unless it is the last body. -/
def Choices.ending (branchNext : Bool) : {subject : Option Variable} → Choices subject → Ending
  | _, .done => .early
  | _, .otherwise body => body.ending false
  | _, .when _ body others =>
    match body.ending !others.isDone with
    | .exact =>
      if others.isDone then if branchNext then .misread else .exact else others.ending branchNext
    | .early => if others.isDone then .early else others.ending branchNext
    | .misread => .misread

end

mutual

/-- Every SELECT without OTHERWISE has a WHEN, and no branch of a SELECT around it follows. -/
def Tree.Closed (branchNext : Bool) : {o : Bool} → Tree o → Prop
  | _, .set .. => True
  | _, .ifThen _ body => body.Closed branchNext
  | _, .ifElse _ body alternative => body.Closed false ∧ alternative.Closed branchNext
  | _, .block body => body.Closed false
  | _, .select _ choices =>
    (choices.hasOtherwise = false → choices.isDone = false ∧ branchNext = false) ∧ choices.Closed

def Body.Closed (branchNext : Bool) : Body → Prop
  | .nil => True
  | .cons first others =>
    first.Closed (branchNext && others.isNil) ∧ others.Closed branchNext

def Choices.Closed : {subject : Option Variable} → Choices subject → Prop
  | _, .done => True
  | _, .otherwise body => body.Closed false
  | _, .when _ body others => body.Closed (!others.isDone) ∧ others.Closed

end

mutual

theorem Tree.ending_eq_exact {branchNext : Bool} {o : Bool} (tree : Tree o)
    (h : tree.Closed branchNext) : tree.ending branchNext = .exact := by
  match tree with
  | .set .. => rfl
  | .ifThen _ body => exact body.ending_eq_exact h
  | .ifElse _ body alternative =>
      rw [Tree.ending, body.ending_eq_exact h.1]
      exact alternative.ending_eq_exact h.2
  | .block body => exact body.ending_eq_exact h
  | .select _ choices => exact choices.ending_eq_exact h.2 h.1

theorem Body.ending_eq_exact {branchNext : Bool} (body : Body) (h : body.Closed branchNext) :
    body.ending branchNext = .exact := by
  match body with
  | .nil => rfl
  | .cons first others =>
      rw [Body.ending, first.ending_eq_exact h.1]
      exact others.ending_eq_exact h.2

theorem Choices.ending_eq_exact {branchNext : Bool} {subject : Option Variable}
    (choices : Choices subject) (h : choices.Closed)
    (hlast : choices.hasOtherwise = false → choices.isDone = false ∧ branchNext = false) :
    choices.ending branchNext = .exact := by
  match choices with
  | .done => exact absurd (hlast rfl).1 (by simp [Choices.isDone])
  | .otherwise body => exact body.ending_eq_exact h
  | .when _ body others =>
      rw [Choices.ending, body.ending_eq_exact h.1]
      by_cases hdone : others.isDone = true
      · have hothers : others.hasOtherwise = false := by
          cases others <;> first | rfl | cases hdone
        simp [hdone, (hlast hothers).2]
      · simp only [hdone]
        exact others.ending_eq_exact h.2 fun hothers => ⟨by simpa using hdone, (hlast hothers).2⟩

end

end ClassSelection.Source
