import ClassSelection.Proofs.Source.Paths

/-!
# Walking a written routine

With every test true or false, a walk through the statements reaches some of
the SETs.  The table of the distribute mode says which: the rule of a SET is
met exactly where the walk reaches the SET.
-/

namespace ClassSelection.Source

mutual

def Tree.values : {o : Bool} → Tree o → List String
  | _, .set _ value => [value.val.text]
  | _, .ifThen _ body => body.values
  | _, .ifElse _ body alternative => body.values ++ alternative.values
  | _, .block body => body.values
  | _, .select _ choices => choices.values

def Body.values : Body → List String
  | .nil => []
  | .cons first others => first.values ++ others.values

def Choices.values : {subject : Option Variable} → Choices subject → List String
  | _, .done => []
  | _, .otherwise body => body.values
  | _, .when _ body others => body.values ++ others.values

end

mutual

/-- For each SET of a statement whether it is reached, given whether the statement is. -/
def Tree.walk (v : Valuation) (reached : Bool) : {o : Bool} → Tree o → List Bool
  | _, .set .. => [reached]
  | _, .ifThen guard body => body.walk v (reached && v.holdsExpr guard.expr)
  | _, .ifElse guard body alternative =>
    body.walk v (reached && v.holdsExpr guard.expr) ++
      alternative.walk v (reached && !v.holdsExpr guard.expr)
  | _, .block body => body.walk v reached
  | _, .select _ choices => choices.walk v reached false

def Body.walk (v : Valuation) (reached : Bool) : Body → List Bool
  | .nil => []
  | .cons first others => first.walk v reached ++ others.walk v reached

/-- A WHEN body is reached where its own question holds, an OTHERWISE where none has held. -/
def Choices.walk (v : Valuation) (reached held : Bool) :
    {subject : Option Variable} → Choices subject → List Bool
  | _, .done => []
  | _, .otherwise body => body.walk v (reached && !held)
  | _, .when question body others =>
    body.walk v (reached && v.holdsExpr question.expr) ++
      others.walk v reached (held || v.holdsExpr question.expr)

end

/-! ## The SETs that are reached -/

mutual

theorem Tree.map_value_assignments (mode : CombineMode) {o : Bool} (tree : Tree o)
    (path : List Alternatives) :
    (tree.assignments mode path).map Assignment.value = tree.values := by
  match tree with
  | .set .. => rfl
  | .ifThen guard body => exact body.map_value_assignments mode _
  | .ifElse guard body alternative =>
      simp only [Tree.assignments, Tree.values, List.map_append, body.map_value_assignments mode,
        alternative.map_value_assignments mode]
  | .block body => exact body.map_value_assignments mode path
  | .select _ choices => exact choices.map_value_assignments mode path []

theorem Body.map_value_assignments (mode : CombineMode) (body : Body) (path : List Alternatives) :
    (body.assignments mode path).map Assignment.value = body.values := by
  match body with
  | .nil => rfl
  | .cons first others =>
      simp only [Body.assignments, Body.values, List.map_append, first.map_value_assignments mode,
        others.map_value_assignments mode]

theorem Choices.map_value_assignments (mode : CombineMode) {subject : Option Variable}
    (choices : Choices subject) (path earlier : List Alternatives) :
    (choices.assignments mode path earlier).map Assignment.value = choices.values := by
  match choices with
  | .done => rfl
  | .otherwise body => exact body.map_value_assignments mode _
  | .when question body others =>
      simp only [Choices.assignments, Choices.values, List.map_append,
        body.map_value_assignments mode, others.map_value_assignments mode]

end

theorem all_meets_append_guard (v : Valuation) (path : List Alternatives) (guard : Expr) :
    (path ++ [guard.alternatives .distribute]).all v.meets =
      (path.all v.meets && v.holdsExpr guard) := by
  rw [List.all_append]
  simp [v.meets_alternatives_distribute]

theorem all_meets_append_negate (v : Valuation) (path : List Alternatives) (guard : Expr) :
    (path ++ [CombineMode.distribute.negate (guard.alternatives .distribute)]).all v.meets =
      (path.all v.meets && !v.holdsExpr guard) := by
  rw [List.all_append]
  simp [v.meets_negate_distribute (guard.proper_alternatives .distribute),
    v.meets_alternatives_distribute]

theorem all_meets_append_noneOf (v : Valuation) (path : List Alternatives)
    {earlier : List Alternatives} (hearlier : ∀ guard ∈ earlier, guard.Proper) :
    (path ++ [CombineMode.distribute.noneOf earlier]).all v.meets =
      (path.all v.meets && !earlier.any v.meets) := by
  rw [List.all_append, List.not_any_eq_all_not]
  simp [v.meets_noneOf_distribute hearlier]

mutual

theorem Tree.map_meets_assignments (v : Valuation) {o : Bool} (tree : Tree o)
    (path : List Alternatives) :
    (tree.assignments .distribute path).map
        (fun assignment => v.meets (CombineMode.distribute.flatten assignment.path)) =
      tree.walk v (path.all v.meets) := by
  match tree with
  | .set .. => exact congrArg (· :: []) (v.meets_flatten_distribute path)
  | .ifThen guard body =>
      rw [Tree.assignments, Tree.walk, body.map_meets_assignments v, all_meets_append_guard]
  | .ifElse guard body alternative =>
      rw [Tree.assignments, Tree.walk, List.map_append, body.map_meets_assignments v,
        alternative.map_meets_assignments v, all_meets_append_guard, all_meets_append_negate]
  | .block body => exact body.map_meets_assignments v path
  | .select _ choices => exact choices.map_meets_assignments v path (by simp)

theorem Body.map_meets_assignments (v : Valuation) (body : Body) (path : List Alternatives) :
    (body.assignments .distribute path).map
        (fun assignment => v.meets (CombineMode.distribute.flatten assignment.path)) =
      body.walk v (path.all v.meets) := by
  match body with
  | .nil => rfl
  | .cons first others =>
      rw [Body.assignments, Body.walk, List.map_append, first.map_meets_assignments v,
        others.map_meets_assignments v]

theorem Choices.map_meets_assignments (v : Valuation) {subject : Option Variable}
    (choices : Choices subject) (path : List Alternatives) {earlier : List Alternatives}
    (hearlier : ∀ guard ∈ earlier, guard.Proper) :
    (choices.assignments .distribute path earlier).map
        (fun assignment => v.meets (CombineMode.distribute.flatten assignment.path)) =
      choices.walk v (path.all v.meets) (earlier.any v.meets) := by
  match choices with
  | .done => rfl
  | .otherwise body =>
      rw [Choices.assignments, Choices.walk, body.map_meets_assignments v,
        all_meets_append_noneOf v path hearlier]
  | .when question body others =>
      have hproper : ∀ guard ∈ earlier ++ [question.expr.alternatives .distribute],
          guard.Proper := by
        intro guard hguard
        rcases List.mem_append.1 hguard with hmem | hmem
        · exact hearlier guard hmem
        · rw [List.mem_singleton.1 hmem]
          exact question.expr.proper_alternatives .distribute
      have hheld : (earlier ++ [question.expr.alternatives .distribute]).any v.meets =
          (earlier.any v.meets || v.holdsExpr question.expr) := by
        rw [List.any_append]
        simp [v.meets_alternatives_distribute]
      rw [Choices.assignments, Choices.walk, List.map_append, body.map_meets_assignments v,
        others.map_meets_assignments v path hproper, all_meets_append_guard, hheld]

end

/-- The table of the distribute mode means what the routine means: one rule for each SET, in their
order, which is met exactly where the walk through the routine reaches the SET. -/
theorem ofSource_distribute_walk {source : String} {kind : RoutineKind} {body : Body}
    (hsource : Renders source kind body) (hclosed : body.Closed false) :
    ∃ table, DecisionTable.ofSource .distribute source = .ok table ∧
      table.rules.map Rule.target = body.values ∧
      ∀ v : Valuation, table.rules.map (fun rule => v.meets rule.alternatives) =
        body.walk v true := by
  have hending : body.ending false ≠ .misread := by
    rw [body.ending_eq_exact hclosed]
    simp
  obtain ⟨routine, hparse, -, hreads⟩ := exists_readsAs hsource hending
  obtain ⟨table, htable, hrules⟩ := rules_of_readsAs .distribute hreads
  refine ⟨table, ?_, ?_, fun v => ?_⟩
  · rw [DecisionTable.ofSource, hparse]
    exact htable
  · have htargets := congrArg (List.map Prod.fst) hrules
    rw [List.map_map, List.map_map] at htargets
    exact htargets.trans (body.map_value_assignments .distribute [])
  · have hmeets := congrArg (List.map fun rule => v.meets rule.2) hrules
    rw [List.map_map, List.map_map] at hmeets
    exact hmeets.trans (body.map_meets_assignments v [])

def layered : Body :=
  .cons
    (.select none
      (.when (.guard (.equals "&DSORG" "PS" (by decide) (by decide)))
        (.cons
          (.ifElse (.equals "&UNIT" "TAPE" (by decide) (by decide)) (.setLiteral "X")
            (.setLiteral "Y"))
          .nil)
        (.otherwise
          (.cons
            (.select (some ⟨"&HLQ", by decide, none⟩)
              (.when (.oneOf ⟨.word "SYS1", by decide⟩ [⟨.word "PROD", by decide⟩])
                (.cons (.setLiteral "Z") .nil) .done))
            .nil))))
    .nil

def layeredSource : String :=
  "PROC STORCLAS SELECT
     WHEN (&DSORG = PS) IF &UNIT = TAPE THEN SET &STORCLAS = 'X' ELSE SET &STORCLAS = 'Y'
     OTHERWISE SELECT (&HLQ) WHEN (SYS1, PROD) SET &STORCLAS = 'Z' END
   END END"

theorem layered_walk :
    ∃ table, DecisionTable.ofSource .distribute layeredSource = .ok table ∧
      table.rules.map Rule.target = layered.values ∧
      ∀ v : Valuation, table.rules.map (fun rule => v.meets rule.alternatives) =
        layered.walk v true := by
  have hsource : Renders layeredSource .storageClass layered :=
    ⟨[.word "END"], .inr rfl, by decide +kernel⟩
  have hclosed : layered.Closed false := by
    simp [layered, Body.Closed, Tree.Closed, Choices.Closed, Choices.hasOtherwise, Choices.isDone,
      Tree.setLiteral]
  exact ofSource_distribute_walk hsource hclosed

end ClassSelection.Source
