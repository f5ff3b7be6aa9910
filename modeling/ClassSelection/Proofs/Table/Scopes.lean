import ClassSelection.Proofs.Table.Emission

/-!
# Scopes are closed where they are opened

A statement opens scopes for its bodies and closes each of them again, so that
it leaves the stack and the depth as it found them.  This is said of every
statement in every state, hence of whatever the reader has made of a block, be
it ended by END, by a branch of a SELECT around it or by the end of the source.
-/

namespace ClassSelection

structure Unfolding.Restores (before after : Unfolding) : Prop where
  scopes : after.scopes.scopes = before.scopes.scopes
  depth : after.depth = before.depth

theorem Unfolding.restores_after (state : Unfolding) (emissions : List Emission)
    (fresh : ScopeHandle) : state.Restores (state.after emissions fresh) :=
  ⟨rfl, rfl⟩

/-- Outside every IF and SELECT of a statement that is unfolded from a state, the unfolding comes to
the statement `met` in the state `there`. -/
inductive Statement.MeetsOutside (mode : CombineMode) (met : Statement) (there : Unfolding) :
    Statement → Unfolding → Prop
  | itself : Statement.MeetsOutside mode met there met there
  | first {first second : Statement} {state : Unfolding}
    (h : Statement.MeetsOutside mode met there first state) :
    Statement.MeetsOutside mode met there (.seq first second) state
  | second {first second : Statement} {state middle : Unfolding}
    (hfirst : first.unfold mode state = .ok middle)
    (h : Statement.MeetsOutside mode met there second middle) :
    Statement.MeetsOutside mode met there (.seq first second) state
  | block {body : Statement} {state : Unfolding}
    (h : Statement.MeetsOutside mode met there body { state with depth := state.depth + 1 }) :
    Statement.MeetsOutside mode met there (.block body) state

variable {mode : CombineMode}

theorem Statement.exists_unfold_restores (mode : CombineMode) (statement : Statement)
    (state : Unfolding) :
    ∃ after, statement.unfold mode state = .ok after ∧ state.Restores after := by
  obtain ⟨fresh, hunfold⟩ := statement.unfold_eq mode state
  exact ⟨_, hunfold, state.restores_after _ fresh⟩

theorem Branches.exists_unfold_restores (mode : CombineMode) (branches : Branches)
    (earlier : List Alternatives) (state : Unfolding) :
    ∃ after, branches.unfold mode earlier state = .ok after ∧ state.Restores after := by
  obtain ⟨fresh, hunfold⟩ := branches.unfold_eq mode earlier state
  exact ⟨_, hunfold, state.restores_after _ fresh⟩

theorem Statement.MeetsOutside.scopes_eq {met statement : Statement} {there state : Unfolding}
    (h : met.MeetsOutside mode there statement state) :
    there.scopes.scopes = state.scopes.scopes := by
  induction h with
  | itself => rfl
  | first _ ih => exact ih
  | @second first _ state _ hfirst _ ih =>
      obtain ⟨after, hunfold, hrestores⟩ := first.exists_unfold_restores mode state
      obtain rfl : after = _ := Except.ok.inj (hunfold.symm.trans hfirst)
      exact ih.trans hrestores.scopes
  | block _ ih => exact ih

structure ScopeDiscipline (mode : CombineMode) : Prop where
  statement (statement : Statement) (state : Unfolding) :
    ∃ after, statement.unfold mode state = .ok after ∧ state.Restores after
  branches (branches : Branches) (earlier : List Alternatives) (state : Unfolding) :
    ∃ after, branches.unfold mode earlier state = .ok after ∧ state.Restores after
  /-- The scope around a body is on top when it is to be closed, and closing it uncovers the scopes
  from before. -/
  closing (guard : Alternatives) (body : Statement) (state : Unfolding) :
    ∃ inner, body.unfold mode (state.inside guard) = .ok inner ∧
      inner.scopes.pop (state.scopes.push guard).1 =
        (some guard, ⟨state.scopes.scopes, inner.scopes.fresh⟩)
  /-- Outside every IF and SELECT no scope is open, before a statement and after it. -/
  outside (met statement : Statement) (there : Unfolding)
    (h : met.MeetsOutside mode there statement .start) :
    there.scopes.scopes = [] ∧
      ∃ after, met.unfold mode there = .ok after ∧ after.scopes.scopes = []
  /-- The rule of a SET there is unconditional. -/
  unconditional (value : String) (line : Nat) (statement : Statement) (there : Unfolding)
    (h : (Statement.assign value line).MeetsOutside mode there statement .start) :
    ∃ after rule, (Statement.assign value line).unfold mode there = .ok after ∧
      after.rules = rule :: there.rules ∧ rule.target = value ∧ rule.alternatives = []

/-- Unfolding keeps the scopes in order, in either mode. -/
theorem scopeDiscipline (mode : CombineMode) : ScopeDiscipline mode where
  statement := Statement.exists_unfold_restores mode
  branches := Branches.exists_unfold_restores mode
  closing guard body state := by
    obtain ⟨inner, hunfold, hrestores⟩ := body.exists_unfold_restores mode (state.inside guard)
    have hscopes : inner.scopes.scopes = ⟨state.scopes.fresh, guard⟩ :: state.scopes.scopes :=
      hrestores.scopes
    refine ⟨inner, hunfold, ?_⟩
    rw [ScopeStack.pop, hscopes]
    simp [ScopeStack.push]
  outside met statement there h := by
    have hthere : there.scopes.scopes = [] := h.scopes_eq
    obtain ⟨after, hunfold, hrestores⟩ := met.exists_unfold_restores mode there
    exact ⟨hthere, after, hunfold, hrestores.scopes.trans hthere⟩
  unconditional value line statement there h := by
    have hthere : there.scopes.scopes = [] := h.scopes_eq
    have hflatten : there.scopes.flatten mode = [] := by
      rw [ScopeStack.flatten, ScopeStack.guards, hthere]
      rfl
    exact ⟨_, _, rfl, rfl, rfl, hflatten⟩

end ClassSelection
