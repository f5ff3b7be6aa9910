import ClassSelection.Proofs.Table.Emission

/-!
# Opposite branches exclude each other

A rule of a body is guarded by everything around the body, so the rules of an
IF's two statements are guarded by a guard and its negation, and those of a
SELECT's OTHERWISE by the negations of all its WHEN guards.  The main statement
is about the rules that are added between two states of an unfolding.
-/

namespace ClassSelection

/-! ## Statements met during an unfolding -/

mutual

/-- While a statement is unfolded from a state, the unfolding comes to the statement `met` in the
state `there`. -/
inductive Statement.Meets (mode : CombineMode) (met : Statement) (there : Unfolding) :
    Statement → Unfolding → Prop
  | itself : Statement.Meets mode met there met there
  | first {first second : Statement} {state : Unfolding}
    (h : Statement.Meets mode met there first state) :
    Statement.Meets mode met there (.seq first second) state
  | second {first second : Statement} {state middle : Unfolding}
    (hfirst : first.unfold mode state = .ok middle)
    (h : Statement.Meets mode met there second middle) :
    Statement.Meets mode met there (.seq first second) state
  | block {body : Statement} {state : Unfolding}
    (h : Statement.Meets mode met there body { state with depth := state.depth + 1 }) :
    Statement.Meets mode met there (.block body) state
  | ifThen {guard : Expr} {body : Statement} {state : Unfolding}
    (h : Statement.Meets mode met there body (state.inside (guard.alternatives mode))) :
    Statement.Meets mode met there (.ifThen guard body) state
  | ifElse {guard : Expr} {body alternative : Statement} {state : Unfolding}
    (h : Statement.Meets mode met there body (state.inside (guard.alternatives mode))) :
    Statement.Meets mode met there (.ifElse guard body alternative) state
  | alternative {guard : Expr} {body alternative : Statement} {state middle : Unfolding}
    {closed : Alternatives}
    (hbody : state.within "IF" (guard.alternatives mode) (body.unfold mode) = .ok (closed, middle))
    (h : Statement.Meets mode met there alternative (middle.inside (mode.negate closed))) :
    Statement.Meets mode met there (.ifElse guard body alternative) state
  | select {branches : Branches} {state : Unfolding}
    (h : Branches.Meets mode met there branches [] state) :
    Statement.Meets mode met there (.select branches) state

inductive Branches.Meets (mode : CombineMode) (met : Statement) (there : Unfolding) :
    Branches → List Alternatives → Unfolding → Prop
  | otherwise {body : Statement} {earlier : List Alternatives} {state : Unfolding}
    (h : Statement.Meets mode met there body (state.inside (mode.noneOf earlier))) :
    Branches.Meets mode met there (.otherwise body) earlier state
  | when {guard : Expr} {body : Statement} {others : Branches} {earlier : List Alternatives}
    {state : Unfolding}
    (h : Statement.Meets mode met there body (state.inside (guard.alternatives mode))) :
    Branches.Meets mode met there (.when guard body others) earlier state
  | others {guard : Expr} {body : Statement} {others : Branches} {earlier : List Alternatives}
    {state middle : Unfolding} {closed : Alternatives}
    (hbody : state.within "WHEN" (guard.alternatives mode) (body.unfold mode) =
      .ok (closed, middle))
    (h : Branches.Meets mode met there others (earlier ++ [closed]) middle) :
    Branches.Meets mode met there (.when guard body others) earlier state

end

def Surrounds (mode : CombineMode) (met : Statement) (there : Unfolding)
    (emissions : List Emission) (state : Unfolding) : Prop :=
  ∃ before last,
    emissions = before ++ (met.emissions mode there.scopes.guards ++ last) ∧
      there.rules = before.foldl Emission.apply state.rules

namespace Surrounds

variable {mode : CombineMode} {met : Statement} {there state middle : Unfolding}
  {emissions others : List Emission}

theorem append_right (h : Surrounds mode met there emissions state) :
    Surrounds mode met there (emissions ++ others) state := by
  obtain ⟨before, last, rfl, hrules⟩ := h
  exact ⟨before, last ++ others, by simp, hrules⟩

theorem append_left (hmiddle : middle.rules = others.foldl Emission.apply state.rules)
    (h : Surrounds mode met there emissions middle) :
    Surrounds mode met there (others ++ emissions) state := by
  obtain ⟨before, last, rfl, hrules⟩ := h
  exact ⟨others ++ before, last, by simp, by rw [hrules, hmiddle, List.foldl_append]⟩

theorem of_inside {body : Statement} {guard : Alternatives}
    (h : Surrounds mode met there (body.emissions mode (state.inside guard).scopes.guards)
      (state.inside guard)) :
    Surrounds mode met there (body.emissions mode (state.scopes.guards ++ [guard])) state := by
  rw [Unfolding.guards_inside] at h
  exact h

end Surrounds

/-- What a construct does, read off a successful run of it. -/
theorem Unfolding.of_within_eq {mode : CombineMode} {construct : String}
    {guard closed : Alternatives}
    {body : Statement} {state middle : Unfolding}
    (h : state.within construct guard (body.unfold mode) = .ok (closed, middle)) :
    closed = guard ∧
      ∃ fresh,
        middle = state.after (body.emissions mode (state.scopes.guards ++ [guard])) fresh := by
  obtain ⟨fresh, heq⟩ := Unfolding.within_eq construct (body.unfold_eq mode (state.inside guard))
  rw [heq, Except.ok.injEq, Prod.mk.injEq] at h
  exact ⟨h.1.symm, fresh, by simpa using h.2.symm⟩

mutual

theorem Statement.Meets.surrounds {mode : CombineMode} {met : Statement} {there : Unfolding}
    {statement : Statement} {state : Unfolding}
    (h : Statement.Meets mode met there statement state) :
    Surrounds mode met there (statement.emissions mode state.scopes.guards) state := by
  match h with
  | .itself => exact ⟨[], [], by simp, rfl⟩
  | .first h => exact h.surrounds.append_right
  | @Statement.Meets.second _ _ _ first _ _ _ hfirst h =>
      obtain ⟨fresh, heq⟩ := first.unfold_eq mode state
      rw [heq, Except.ok.injEq] at hfirst
      subst hfirst
      exact h.surrounds.append_left (Unfolding.rules_after ..)
  | .block h => exact h.surrounds
  | .ifThen h => exact h.surrounds.of_inside
  | .ifElse h => exact h.surrounds.of_inside.append_right
  | .alternative hbody h =>
      obtain ⟨rfl, fresh, rfl⟩ := Unfolding.of_within_eq hbody
      exact h.surrounds.of_inside.append_left (Unfolding.rules_after ..)
  | .select h => exact h.surrounds

theorem Branches.Meets.surrounds {mode : CombineMode} {met : Statement} {there : Unfolding}
    {branches : Branches} {earlier : List Alternatives} {state : Unfolding}
    (h : Branches.Meets mode met there branches earlier state) :
    Surrounds mode met there (branches.emissions mode state.scopes.guards earlier) state := by
  match h with
  | .otherwise h => exact h.surrounds.of_inside
  | .when h => exact h.surrounds.of_inside.append_right
  | .others hbody h =>
      obtain ⟨rfl, fresh, rfl⟩ := Unfolding.of_within_eq hbody
      exact h.surrounds.append_left (Unfolding.rules_after ..)

end

/-! ## Rules between two states -/

def DecisionTable.rulesBetween (table : DecisionTable) (start finish : Unfolding) : List Rule :=
  (table.rules.take finish.rules.length).drop start.rules.length

def Exclusive (left right : List Rule) : Prop :=
  ∀ r ∈ left, ∀ r' ∈ right, ∀ v : Valuation,
    ¬(v.meets r.alternatives = true ∧ v.meets r'.alternatives = true)

theorem sites_rulesBetween {table : DecisionTable} {start finish : Unfolding}
    {before emissions last : List Emission}
    (htable : table.rules =
      ((before ++ (emissions ++ last)).foldl Emission.apply []).reverse)
    (hstart : start.rules = before.foldl Emission.apply [])
    (hfinish : finish.rules = emissions.foldl Emission.apply start.rules) :
    finish.rules.length ≤ table.rules.length ∧
      (table.rulesBetween start finish).map Rule.site = emissions.filterMap Emission.site? := by
  have hsites : table.rules.map Rule.site = before.filterMap Emission.site? ++
      (emissions.filterMap Emission.site? ++ last.filterMap Emission.site?) := by
    rw [htable, Emission.sites_foldl_apply]
    simp
  have hlength : start.rules.length = (before.filterMap Emission.site?).length := by
    rw [hstart, Emission.length_foldl_apply]
    simp
  have hlength' : finish.rules.length = (before.filterMap Emission.site?).length +
      (emissions.filterMap Emission.site?).length := by
    rw [hfinish, Emission.length_foldl_apply, hlength]
  refine ⟨?_, ?_⟩
  · have := congrArg List.length hsites
    rw [List.length_map, List.length_append, List.length_append] at this
    omega
  · rw [DecisionTable.rulesBetween, List.map_drop, List.map_take, hsites, hlength, hlength',
      ← List.append_assoc, ← List.length_append, List.take_left, List.drop_left]

/-- A rule that a statement emits is met only where all guards around the statement are. -/
theorem Valuation.meets_guards (v : Valuation) {mode : CombineMode} {guards : List Alternatives}
    {statement : Statement} {target : String} {alternatives : Alternatives} {line : Nat}
    (hrule : .rule target alternatives line ∈ statement.emissions mode guards)
    (hmeets : v.meets alternatives = true) : ∀ guard ∈ guards, v.meets guard = true := by
  obtain ⟨inner, rfl⟩ := statement.exists_flatten_of_mem_emissions hrule
  intro guard hguard
  exact v.meets_of_flatten hmeets guard (List.mem_append_left _ hguard)

/-- Rules exclude each other if the rules emitted at their sites do. -/
theorem exclusive_of_emissions {emissions emissions' : List Emission} {left right : List Rule}
    (hleft : left.map Rule.site = emissions.filterMap Emission.site?)
    (hright : right.map Rule.site = emissions'.filterMap Emission.site?)
    (h : ∀ (v : Valuation) {target target' alternatives alternatives' line line'},
      .rule target alternatives line ∈ emissions → .rule target' alternatives' line' ∈ emissions' →
      v.meets alternatives = true → v.meets alternatives' = true → False) :
    Exclusive left right := by
  have hmem : ∀ {rules : List Rule} {emissions : List Emission} {rule : Rule},
      rules.map Rule.site = emissions.filterMap Emission.site? → rule ∈ rules →
      .rule rule.target rule.alternatives rule.line ∈ emissions := by
    intro rules emissions rule hsites hrule
    have hsite : rule.site ∈ emissions.filterMap Emission.site? :=
      hsites ▸ List.mem_map_of_mem hrule
    obtain ⟨emission, hemission, heq⟩ := List.mem_filterMap.1 hsite
    cases emission with
    | exit => exact absurd heq (by simp [Emission.site?])
    | rule target alternatives line =>
        simp only [Emission.site?, Rule.site, Option.some.injEq, Prod.mk.injEq] at heq
        obtain ⟨rfl, rfl, rfl⟩ := heq
        exact hemission
  rintro r hr r' hr' v ⟨hmeets, hmeets'⟩
  exact h v (hmem hleft hr) (hmem hright hr') hmeets hmeets'

/-! ## The branches of a SELECT -/

theorem Branches.emissions_prepend (mode : CombineMode) (guards earlier : List Alternatives)
    (whens : List (Expr × Statement)) (others : Branches) :
    (Branches.prepend whens others).emissions mode guards earlier =
      (Branches.prepend whens .done).emissions mode guards earlier ++
        others.emissions mode guards
          (earlier ++ whens.map fun branch => branch.1.alternatives mode) := by
  induction whens generalizing earlier with
  | nil => simp [prepend, emissions]
  | cons branch whens ih =>
      have hcons (rest : Branches) :
          prepend (branch :: whens) rest = .when branch.1 branch.2 (prepend whens rest) := rfl
      rw [hcons, hcons, emissions, emissions, ih]
      simp

/-- A rule of the WHEN branches comes from the body of one of them. -/
theorem Branches.exists_when_of_mem_emissions {mode : CombineMode}
    {guards earlier : List Alternatives} {whens : List (Expr × Statement)} {emission : Emission}
    (h : emission ∈ (Branches.prepend whens .done).emissions mode guards earlier) :
    ∃ branch ∈ whens, emission ∈
      branch.2.emissions mode (guards ++ [branch.1.alternatives mode]) := by
  induction whens generalizing earlier with
  | nil => simp [prepend, emissions] at h
  | cons branch whens ih =>
      rcases List.mem_append.1 h with h | h
      · exact ⟨branch, List.mem_cons_self, h⟩
      · obtain ⟨other, hmem, hother⟩ := ih h
        exact ⟨other, List.mem_cons_of_mem _ hmem, hother⟩

/-! ## Exclusion -/

theorem exclusive_between {table : DecisionTable} {before first second last : List Emission}
    {state middle final : Unfolding}
    (htable : table.rules =
      ((before ++ ((first ++ second) ++ last)).foldl Emission.apply []).reverse)
    (hstate : state.rules = before.foldl Emission.apply [])
    (hmiddle : middle.rules = first.foldl Emission.apply state.rules)
    (hfinal : final.rules = second.foldl Emission.apply middle.rules)
    (h : ∀ (v : Valuation) {target target' alternatives alternatives' line line'},
      .rule target alternatives line ∈ first → .rule target' alternatives' line' ∈ second →
      v.meets alternatives = true → v.meets alternatives' = true → False) :
    final.rules.length ≤ table.rules.length ∧
      Exclusive (table.rulesBetween state middle) (table.rulesBetween middle final) := by
  obtain ⟨-, hfirst⟩ := sites_rulesBetween (by rw [htable, List.append_assoc]) hstate hmiddle
  have hmiddle' : middle.rules = (before ++ first).foldl Emission.apply [] := by
    rw [hmiddle, hstate, List.foldl_append]
  obtain ⟨hlength, hsecond⟩ := sites_rulesBetween
    (by rw [htable, List.append_assoc, ← List.append_assoc before]) hmiddle' hfinal
  exact ⟨hlength, exclusive_of_emissions hfirst hsecond h⟩

/-- The rules of an IF's statement and those of its ELSE exclude each other. -/
theorem ifElse_exclusive {mode : CombineMode} {table : DecisionTable} {statement : Statement}
    (htable : table.rules = ((statement.emissions mode []).foldl Emission.apply []).reverse)
    {guard : Expr} {body alternative : Statement} {state : Unfolding}
    (h : Statement.Meets mode (.ifElse guard body alternative) state statement .start) :
    ∃ closed middle closed' final,
      state.within "IF" (guard.alternatives mode) (body.unfold mode) = .ok (closed, middle) ∧
      middle.within "ELSE" (mode.negate closed) (alternative.unfold mode) = .ok (closed', final) ∧
      final.rules.length ≤ table.rules.length ∧
      Exclusive (table.rulesBetween state middle) (table.rulesBetween middle final) := by
  obtain ⟨before, last, hsplit, hstate⟩ := h.surrounds
  rw [show Unfolding.start.scopes.guards = [] from rfl, Statement.emissions] at hsplit
  obtain ⟨fresh, hbody⟩ := Unfolding.within_eq "IF"
    (body.unfold_eq mode (state.inside (guard.alternatives mode)))
  rw [Unfolding.guards_inside] at hbody
  obtain ⟨fresh', helse⟩ := Unfolding.within_eq "ELSE"
    (alternative.unfold_eq mode ((state.after _ fresh).inside
      (mode.negate (guard.alternatives mode))))
  rw [Unfolding.guards_inside, Unfolding.guards_after] at helse
  refine ⟨_, _, _, _, hbody, helse, exclusive_between (by rw [htable, hsplit]) hstate
    (Unfolding.rules_after ..) (Unfolding.rules_after ..) ?_⟩
  intro v _ _ _ _ _ _ hrule hrule' hmeets hmeets'
  have hguard := v.meets_guards hrule hmeets (guard.alternatives mode) (by simp)
  have hnegation := v.meets_guards hrule' hmeets' (mode.negate (guard.alternatives mode)) (by simp)
  rw [v.meets_negate (guard.proper_alternatives mode) hnegation] at hguard
  exact Bool.false_ne_true hguard

theorem otherwise_exclusive {mode : CombineMode} {table : DecisionTable} {statement : Statement}
    (htable : table.rules = ((statement.emissions mode []).foldl Emission.apply []).reverse)
    {whens : List (Expr × Statement)} {body : Statement} {state : Unfolding}
    (h : Statement.Meets mode (.select (.prepend whens (.otherwise body))) state statement
      .start) :
    ∃ middle final,
      (Branches.prepend whens .done).unfold mode [] state = .ok middle ∧
      (Branches.prepend whens (.otherwise body)).unfold mode [] state = .ok final ∧
      final.rules.length ≤ table.rules.length ∧
      Exclusive (table.rulesBetween state middle) (table.rulesBetween middle final) := by
  obtain ⟨before, last, hsplit, hstate⟩ := h.surrounds
  rw [show Unfolding.start.scopes.guards = [] from rfl, Statement.emissions,
    Branches.emissions_prepend, List.nil_append, Branches.emissions] at hsplit
  obtain ⟨fresh, hwhens⟩ := (Branches.prepend whens .done).unfold_eq mode [] state
  obtain ⟨fresh', hall⟩ := (Branches.prepend whens (.otherwise body)).unfold_eq mode [] state
  rw [Branches.emissions_prepend, List.nil_append, Branches.emissions] at hall
  refine ⟨_, _, hwhens, hall, exclusive_between (by rw [htable, hsplit]) hstate
    (Unfolding.rules_after ..)
    (by rw [Unfolding.rules_after, List.foldl_append, Unfolding.rules_after]) ?_⟩
  intro v _ _ _ _ _ _ hrule hrule' hmeets hmeets'
  obtain ⟨branch, hbranch, hrule⟩ := Branches.exists_when_of_mem_emissions hrule
  have hguard := v.meets_guards hrule hmeets (branch.1.alternatives mode) (by simp)
  have hnone := v.meets_guards hrule' hmeets'
    (mode.noneOf (whens.map fun branch => branch.1.alternatives mode)) (by simp)
  have hnegation := v.meets_noneOf (by
    intro guard hguard
    obtain ⟨other, -, rfl⟩ := List.mem_map.1 hguard
    exact other.1.proper_alternatives mode) hnone _ (List.mem_map_of_mem hbranch)
  rw [hnegation] at hguard
  exact Bool.false_ne_true hguard

/-- The opposite branches that an unfolding comes to exclude each other in the table: an IF's
statement and its ELSE, and the WHEN branches of a SELECT and its OTHERWISE. -/
structure DecisionTable.SeparatesBranches (table : DecisionTable) (mode : CombineMode)
    (routine : Routine) : Prop where
  ifElse (guard : Expr) (body alternative : Statement) (state : Unfolding)
    (h : Statement.Meets mode (.ifElse guard body alternative) state routine.body .start) :
    ∃ closed middle closed' final,
      state.within "IF" (guard.alternatives mode) (body.unfold mode) = .ok (closed, middle) ∧
      middle.within "ELSE" (mode.negate closed) (alternative.unfold mode) = .ok (closed', final) ∧
      final.rules.length ≤ table.rules.length ∧
      Exclusive (table.rulesBetween state middle) (table.rulesBetween middle final)
  otherwise (whens : List (Expr × Statement)) (body : Statement) (state : Unfolding)
    (h : Statement.Meets mode (.select (.prepend whens (.otherwise body))) state routine.body
      .start) :
    ∃ middle final,
      (Branches.prepend whens .done).unfold mode [] state = .ok middle ∧
      (Branches.prepend whens (.otherwise body)).unfold mode [] state = .ok final ∧
      final.rules.length ≤ table.rules.length ∧
      Exclusive (table.rulesBetween state middle) (table.rulesBetween middle final)

/-- Every table separates the opposite branches of its routine, in either mode. -/
theorem separatesBranches_of_ofSource {mode : CombineMode} {source : String}
    {table : DecisionTable} (h : DecisionTable.ofSource mode source = .ok table) :
    ∃ routine, Routine.parse source = .ok routine ∧ table.SeparatesBranches mode routine := by
  rw [DecisionTable.ofSource] at h
  cases hparse : Routine.parse source with
  | error error => rw [hparse] at h; cases h
  | ok routine =>
      rw [hparse] at h
      have htable := h.symm.trans (DecisionTable.ofRoutine_eq mode routine)
      rw [Except.ok.injEq] at htable
      have hrules := congrArg DecisionTable.rules htable
      exact ⟨routine, rfl, fun _ _ _ _ hmeets => ifElse_exclusive hrules hmeets,
        fun _ _ _ hmeets => otherwise_exclusive hrules hmeets⟩

def oppositeBranches : String :=
  "PROC STORCLAS
     IF &A = 1 AND (&B = 2 OR &C = 3) THEN SET &STORCLAS = 'W'
     ELSE SELECT (&D)
       WHEN (1, 2) SET &STORCLAS = 'X'
       OTHERWISE SET &STORCLAS = 'Y'
     END
   END"

theorem oppositeBranches_separate :
    ∃ table routine, DecisionTable.ofSource .merge oppositeBranches = .ok table ∧
      table.rules.length = 3 ∧ Routine.parse oppositeBranches = .ok routine ∧
      table.SeparatesBranches .merge routine := by
  have hrules : (DecisionTable.ofSource .merge oppositeBranches).map
      (fun table => table.rules.length) = .ok 3 := by
    decide +kernel
  cases htable : DecisionTable.ofSource .merge oppositeBranches with
  | error error =>
      rw [htable] at hrules
      cases hrules
  | ok table =>
      obtain ⟨routine, hparse, hseparates⟩ := separatesBranches_of_ofSource htable
      rw [htable] at hrules
      exact ⟨table, routine, rfl, Except.ok.inj hrules, hparse, hseparates⟩

end ClassSelection
