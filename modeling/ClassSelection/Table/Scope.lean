import ClassSelection.Condition.Algebra

/-!
# Scopes

The guards that are open around a statement, innermost first. Each scope has a handle of its own,
and only the innermost one can be closed.
-/

namespace ClassSelection

/-- The name of one scope among all that were ever opened. -/
structure ScopeHandle where
  serial : Nat
  deriving DecidableEq, Repr

structure Scope where
  handle : ScopeHandle
  guard : Alternatives
  deriving DecidableEq, Repr

structure ScopeStack where
  /-- The open scopes, innermost first. -/
  scopes : List Scope
  /-- The handle that the next scope gets. -/
  fresh : ScopeHandle
  deriving DecidableEq, Repr

namespace ScopeStack

def empty : ScopeStack := ⟨[], ⟨0⟩⟩

def push (stack : ScopeStack) (guard : Alternatives) : ScopeHandle × ScopeStack :=
  (stack.fresh, ⟨⟨stack.fresh, guard⟩ :: stack.scopes, ⟨stack.fresh.serial + 1⟩⟩)

/-- Closes the innermost scope and gives its guard; refused for the handle of any other scope. -/
def pop (stack : ScopeStack) (handle : ScopeHandle) : Option Alternatives × ScopeStack :=
  match stack.scopes with
  | [] => (none, stack)
  | top :: others =>
    if top.handle = handle then (some top.guard, ⟨others, stack.fresh⟩) else (none, stack)

def guards (stack : ScopeStack) : List Alternatives :=
  (stack.scopes.map Scope.guard).reverse

def flatten (stack : ScopeStack) (mode : CombineMode) : Alternatives :=
  mode.flatten stack.guards

def depth (stack : ScopeStack) : Nat :=
  stack.scopes.length

end ScopeStack

end ClassSelection
