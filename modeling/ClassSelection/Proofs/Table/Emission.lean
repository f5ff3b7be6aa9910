import ClassSelection.Proofs.Condition.Valuation

/-!
# What a statement emits

Unfolding a statement closes every scope that it opens, so its effect is a
sequence of emissions: rules, each with the flattened guards around its SET,
and marks of an EXIT.  `Statement.unfold_eq` says so, and from then on a proof
about rules is a proof about `Statement.emissions`.
-/

namespace ClassSelection

/-- What unfolding does to the list of rules. -/
inductive Emission where
  /-- A SET adds a rule. -/
  | rule (target : String) (alternatives : Alternatives) (line : Nat)
  /-- An EXIT marks the latest rule. -/
  | exit

namespace Emission

def apply (rules : List Rule) : Emission → List Rule
  | rule target alternatives line =>
    { target, alternatives, sequence := rules.length + 1, line, hasExit := false } :: rules
  | exit =>
    match rules with
    | [] => []
    | latest :: earlier => { latest with hasExit := true } :: earlier

/-- The part of a rule that no later emission touches. -/
def site? : Emission → Option (String × Alternatives × Nat)
  | rule target alternatives line => some (target, alternatives, line)
  | exit => none

end Emission

def Rule.site (rule : Rule) : String × Alternatives × Nat :=
  (rule.target, rule.alternatives, rule.line)

mutual

/-- The emissions of a statement inside the given guards, outermost first. -/
def Statement.emissions (mode : CombineMode) (guards : List Alternatives) :
    Statement → List Emission
  | .skip => []
  | .assign value line => [.rule value (mode.flatten guards) line]
  | .exit => [.exit]
  | .seq first second => first.emissions mode guards ++ second.emissions mode guards
  | .block body => body.emissions mode guards
  | .ifThen guard body => body.emissions mode (guards ++ [guard.alternatives mode])
  | .ifElse guard body alternative =>
    body.emissions mode (guards ++ [guard.alternatives mode]) ++
      alternative.emissions mode (guards ++ [mode.negate (guard.alternatives mode)])
  | .select branches => branches.emissions mode guards []

def Branches.emissions (mode : CombineMode) (guards earlier : List Alternatives) :
    Branches → List Emission
  | .done => []
  | .otherwise body => body.emissions mode (guards ++ [mode.noneOf earlier])
  | .when guard body others =>
    body.emissions mode (guards ++ [guard.alternatives mode]) ++
      others.emissions mode guards (earlier ++ [guard.alternatives mode])

end

namespace Unfolding

def after (state : Unfolding) (emissions : List Emission) (fresh : ScopeHandle) : Unfolding where
  scopes := ⟨state.scopes.scopes, fresh⟩
  rules := emissions.foldl Emission.apply state.rules
  depth := state.depth

def inside (state : Unfolding) (guard : Alternatives) : Unfolding :=
  { state with scopes := (state.scopes.push guard).2 }

@[simp] theorem guards_inside (state : Unfolding) (guard : Alternatives) :
    (state.inside guard).scopes.guards = state.scopes.guards ++ [guard] := by
  simp [inside, ScopeStack.push, ScopeStack.guards]

@[simp] theorem guards_after (state : Unfolding) (emissions : List Emission) (fresh : ScopeHandle) :
    (state.after emissions fresh).scopes.guards = state.scopes.guards := rfl

@[simp] theorem rules_after (state : Unfolding) (emissions : List Emission) (fresh : ScopeHandle) :
    (state.after emissions fresh).rules = emissions.foldl Emission.apply state.rules := rfl

theorem after_after (state : Unfolding) (first second : List Emission) (fresh last : ScopeHandle) :
    (state.after first fresh).after second last = state.after (first ++ second) last := by
  simp [after]

/-- A body that leaves its scopes alone can be unfolded inside a scope, which is then closed. -/
theorem within_eq (construct : String) {guard : Alternatives}
    {body : Unfolding → Except String Unfolding} {state : Unfolding} {emissions : List Emission}
    (h : ∃ fresh, body (state.inside guard) = .ok ((state.inside guard).after emissions fresh)) :
    ∃ fresh, state.within construct guard body = .ok (guard, state.after emissions fresh) := by
  obtain ⟨fresh, hbody⟩ := h
  refine ⟨fresh, ?_⟩
  have hbody' : body { state with scopes := (state.scopes.push guard).2 } =
      .ok ((state.inside guard).after emissions fresh) := hbody
  simp only [within, bind, Except.bind, hbody']
  simp [after, inside, ScopeStack.push, ScopeStack.pop, pure, Except.pure]

end Unfolding

mutual

/-- Unfolding never fails, and amounts to the emissions of the statement. -/
theorem Statement.unfold_eq (mode : CombineMode) (statement : Statement) (state : Unfolding) :
    ∃ fresh, statement.unfold mode state =
      .ok (state.after (statement.emissions mode state.scopes.guards) fresh) := by
  match statement with
  | .skip => exact ⟨state.scopes.fresh, rfl⟩
  | .assign value line => exact ⟨state.scopes.fresh, rfl⟩
  | .exit =>
      obtain ⟨scopes, rules, depth⟩ := state
      cases rules <;> exact ⟨scopes.fresh, rfl⟩
  | .seq first second =>
      obtain ⟨fresh, hfirst⟩ := first.unfold_eq mode state
      obtain ⟨last, hsecond⟩ := second.unfold_eq mode
        (state.after (first.emissions mode state.scopes.guards) fresh)
      refine ⟨last, ?_⟩
      rw [Statement.unfold, hfirst]
      simpa [bind, Except.bind, Statement.emissions, Unfolding.after_after] using hsecond
  | .block body =>
      obtain ⟨fresh, hbody⟩ := body.unfold_eq mode { state with depth := state.depth + 1 }
      refine ⟨fresh, ?_⟩
      rw [Statement.unfold, hbody]
      rfl
  | .ifThen guard body =>
      obtain ⟨fresh, hbody⟩ := Unfolding.within_eq "IF"
        (body.unfold_eq mode (state.inside (guard.alternatives mode)))
      refine ⟨fresh, ?_⟩
      rw [Statement.unfold, hbody]
      simp [bind, Except.bind, pure, Except.pure, Statement.emissions]
  | .ifElse guard body alternative =>
      obtain ⟨fresh, hbody⟩ := Unfolding.within_eq "IF"
        (body.unfold_eq mode (state.inside (guard.alternatives mode)))
      obtain ⟨last, helse⟩ := Unfolding.within_eq "ELSE"
        (alternative.unfold_eq mode ((state.after _ fresh).inside
          (mode.negate (guard.alternatives mode))))
      refine ⟨last, ?_⟩
      rw [Statement.unfold, hbody]
      simp only [bind, Except.bind]
      rw [helse]
      simp [pure, Except.pure, Statement.emissions, Unfolding.after_after]
  | .select branches => exact branches.unfold_eq mode [] state

theorem Branches.unfold_eq (mode : CombineMode) (branches : Branches)
    (earlier : List Alternatives) (state : Unfolding) :
    ∃ fresh, branches.unfold mode earlier state =
      .ok (state.after (branches.emissions mode state.scopes.guards earlier) fresh) := by
  match branches with
  | .done => exact ⟨state.scopes.fresh, rfl⟩
  | .otherwise body =>
      obtain ⟨fresh, hbody⟩ := Unfolding.within_eq "OTHERWISE"
        (body.unfold_eq mode (state.inside (mode.noneOf earlier)))
      refine ⟨fresh, ?_⟩
      rw [Branches.unfold, hbody]
      simp [bind, Except.bind, pure, Except.pure, Branches.emissions]
  | .when guard body others =>
      obtain ⟨fresh, hbody⟩ := Unfolding.within_eq "WHEN"
        (body.unfold_eq mode (state.inside (guard.alternatives mode)))
      obtain ⟨last, hothers⟩ := others.unfold_eq mode (earlier ++ [guard.alternatives mode])
        (state.after _ fresh)
      refine ⟨last, ?_⟩
      rw [Branches.unfold, hbody]
      simp only [bind, Except.bind]
      rw [hothers]
      simp [Branches.emissions, Unfolding.after_after]

end

/-! ## The rules of a table -/

namespace Emission

/-- Emissions add their rules at the end, and leave the earlier ones alone but for EXIT marks. -/
theorem sites_foldl_apply (emissions : List Emission) (rules : List Rule) :
    (emissions.foldl apply rules).reverse.map Rule.site =
      rules.reverse.map Rule.site ++ emissions.filterMap site? := by
  induction emissions generalizing rules with
  | nil => simp
  | cons emission emissions ih =>
      rw [List.foldl_cons, ih]
      cases emission with
      | rule target alternatives line => simp [apply, site?, Rule.site]
      | exit =>
          rw [List.filterMap_cons_none rfl]
          cases rules <;> simp [apply, Rule.site]

theorem sites_rules (emissions : List Emission) :
    (emissions.foldl apply []).reverse.map Rule.site = emissions.filterMap site? := by
  simpa using sites_foldl_apply emissions []

theorem length_foldl_apply (emissions : List Emission) (rules : List Rule) :
    (emissions.foldl apply rules).length = rules.length + (emissions.filterMap site?).length := by
  have h := congrArg List.length (sites_foldl_apply emissions rules)
  simpa using h

end Emission

/-- A routine always has a table, and its rules are those that the body emits. -/
theorem DecisionTable.ofRoutine_eq (mode : CombineMode) (routine : Routine) :
    DecisionTable.ofRoutine mode routine = .ok {
      kind := routine.kind
      registry := routine.registry
      rules := ((routine.body.emissions mode []).foldl Emission.apply []).reverse
      filterLists := routine.filterLists
      anomalies := routine.anomalies } := by
  obtain ⟨fresh, h⟩ := routine.body.unfold_eq mode .start
  rw [DecisionTable.ofRoutine, h]
  rfl

/-! ## The guards of a rule -/

mutual

theorem Statement.exists_flatten_of_mem_emissions {mode : CombineMode}
    {guards : List Alternatives} {target : String} {alternatives : Alternatives} {line : Nat}
    (statement : Statement)
    (h : .rule target alternatives line ∈ statement.emissions mode guards) :
    ∃ inner, alternatives = mode.flatten (guards ++ inner) := by
  match statement with
  | .skip => simp [Statement.emissions] at h
  | .assign value _ =>
      simp only [Statement.emissions, List.mem_singleton, Emission.rule.injEq] at h
      exact ⟨[], by simpa using h.2.1⟩
  | .exit => simp [Statement.emissions] at h
  | .seq first second =>
      rcases List.mem_append.1 h with h | h
      · exact first.exists_flatten_of_mem_emissions h
      · exact second.exists_flatten_of_mem_emissions h
  | .block body => exact body.exists_flatten_of_mem_emissions h
  | .ifThen guard body =>
      obtain ⟨inner, hinner⟩ := body.exists_flatten_of_mem_emissions h
      exact ⟨guard.alternatives mode :: inner, by simpa using hinner⟩
  | .ifElse guard body alternative =>
      rcases List.mem_append.1 h with h | h
      · obtain ⟨inner, hinner⟩ := body.exists_flatten_of_mem_emissions h
        exact ⟨guard.alternatives mode :: inner, by simpa using hinner⟩
      · obtain ⟨inner, hinner⟩ := alternative.exists_flatten_of_mem_emissions h
        exact ⟨mode.negate (guard.alternatives mode) :: inner, by simpa using hinner⟩
  | .select branches => exact branches.exists_flatten_of_mem_emissions h

theorem Branches.exists_flatten_of_mem_emissions {mode : CombineMode}
    {guards earlier : List Alternatives} {target : String} {alternatives : Alternatives}
    {line : Nat} (branches : Branches)
    (h : .rule target alternatives line ∈ branches.emissions mode guards earlier) :
    ∃ inner, alternatives = mode.flatten (guards ++ inner) := by
  match branches with
  | .done => simp [Branches.emissions] at h
  | .otherwise body =>
      obtain ⟨inner, hinner⟩ := body.exists_flatten_of_mem_emissions h
      exact ⟨mode.noneOf earlier :: inner, by simpa using hinner⟩
  | .when guard body others =>
      rcases List.mem_append.1 h with h | h
      · obtain ⟨inner, hinner⟩ := body.exists_flatten_of_mem_emissions h
        exact ⟨guard.alternatives mode :: inner, by simpa using hinner⟩
      · exact others.exists_flatten_of_mem_emissions h

end

end ClassSelection
