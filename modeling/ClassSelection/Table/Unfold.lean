import ClassSelection.Routine.Basic
import ClassSelection.Table.Basic
import ClassSelection.Table.Scope

/-!
# Unfolding

From the statements of a routine to its rules. Each body is unfolded inside a scope with its guard:
the guard of an IF or WHEN, the negation of the IF's for its ELSE, and the conjunction of the
negations of all branches for an OTHERWISE. A SET becomes a rule guarded by all open scopes.
-/

namespace ClassSelection

structure Unfolding where
  scopes : ScopeStack
  /-- The rules so far, latest first. -/
  rules : List Rule
  /-- The number of DO blocks around the statement. -/
  depth : Nat
  deriving DecidableEq, Repr

namespace Unfolding

def start : Unfolding := ⟨.empty, [], 0⟩

def assign (mode : CombineMode) (value : String) (line : Nat) (state : Unfolding) : Unfolding :=
  let rule : Rule := {
    target := value
    alternatives := state.scopes.flatten mode
    sequence := state.rules.length + 1
    line
    hasExit := false }
  { state with rules := rule :: state.rules }

def exit (state : Unfolding) : Unfolding :=
  match state.rules with
  | [] => state
  | latest :: earlier => { state with rules := { latest with hasExit := true } :: earlier }

/-- Unfolds a body inside a scope with its guard, and gives the guard back when the scope is closed.
The error names the construct whose scope was not the innermost one. -/
def within (construct : String) (guard : Alternatives)
    (body : Unfolding → Except String Unfolding) (state : Unfolding) :
    Except String (Alternatives × Unfolding) := do
  let (handle, scopes) := state.scopes.push guard
  let inner ← body { state with scopes }
  match inner.scopes.pop handle with
  | (some guard, scopes) => return (guard, { inner with scopes })
  | (none, _) => throw construct

end Unfolding

/-- The guard of an OTHERWISE: none of the branches is taken. -/
def CombineMode.noneOf (mode : CombineMode) (branches : List Alternatives) : Alternatives :=
  branches.foldl (fun result branch => mode.combine result (mode.negate branch)) []

mutual

def Statement.unfold (mode : CombineMode) (statement : Statement) (state : Unfolding) :
    Except String Unfolding :=
  match statement with
  | .skip => .ok state
  | .assign value line => .ok (state.assign mode value line)
  | .exit => .ok state.exit
  | .seq first second => do
    second.unfold mode (← first.unfold mode state)
  | .block body => do
    let inner ← body.unfold mode { state with depth := state.depth + 1 }
    return { inner with depth := inner.depth - 1 }
  | .ifThen guard body => do
    let (_, state) ← state.within "IF" (guard.alternatives mode) (body.unfold mode)
    return state
  | .ifElse guard body alternative => do
    let (guard, state) ← state.within "IF" (guard.alternatives mode) (body.unfold mode)
    let (_, state) ← state.within "ELSE" (mode.negate guard) (alternative.unfold mode)
    return state
  | .select branches => branches.unfold mode [] state

/-- Adds the rules of the branches of a SELECT, after branches with the given guards. -/
def Branches.unfold (mode : CombineMode) (branches : Branches) (earlier : List Alternatives)
    (state : Unfolding) : Except String Unfolding :=
  match branches with
  | .done => .ok state
  | .otherwise body => do
    let (_, state) ← state.within "OTHERWISE" (mode.noneOf earlier) (body.unfold mode)
    return state
  | .when guard body others => do
    let (guard, state) ← state.within "WHEN" (guard.alternatives mode) (body.unfold mode)
    others.unfold mode (earlier ++ [guard]) state

end

namespace DecisionTable

def ofRoutine (mode : CombineMode) (routine : Routine) : Except Error DecisionTable :=
  match routine.body.unfold mode .start with
  | .ok state =>
    .ok {
      kind := routine.kind
      registry := routine.registry
      rules := state.rules.reverse
      filterLists := routine.filterLists
      anomalies := routine.anomalies }
  | .error construct => .error (.scopeMismatch construct routine.lastLine)

def ofSource (mode : CombineMode) (source : String) : Except Error DecisionTable := do
  ofRoutine mode (← Routine.parse source)

end DecisionTable

end ClassSelection
