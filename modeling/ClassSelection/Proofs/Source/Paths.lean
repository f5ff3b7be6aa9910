import ClassSelection.Proofs.Source.Routine
import ClassSelection.Proofs.Table.Emission

/-!
# The guards on the path to a SET

Each SET of a written routine has a path: the guards of the branches that it is
in.  Where no statement is misread, the rules of the table are the SETs with
their paths flattened, and nothing else is on them.
-/

namespace ClassSelection

/-! ## Rules without their lines -/

def Rule.assignment (rule : Rule) : String × Alternatives :=
  (rule.target, rule.alternatives)

def Emission.assignment? : Emission → Option (String × Alternatives)
  | rule target alternatives _ => some (target, alternatives)
  | exit => none

theorem Emission.map_assignment (emissions : List Emission) :
    (emissions.foldl apply []).reverse.map Rule.assignment = emissions.filterMap assignment? := by
  have hsites := congrArg (List.map fun site : String × Alternatives × Nat => (site.1, site.2.1))
    (sites_foldl_apply emissions [])
  rw [List.map_map] at hsites
  refine hsites.trans ?_
  simp only [List.reverse_nil, List.map_nil, List.nil_append, List.map_filterMap]
  congr 1
  funext emission
  cases emission <;> rfl

mutual

theorem Statement.assignments_withoutLines (mode : CombineMode) (statement : Statement)
    (guards : List Alternatives) :
    (statement.withoutLines.emissions mode guards).filterMap Emission.assignment? =
      (statement.emissions mode guards).filterMap Emission.assignment? := by
  match statement with
  | .skip | .assign .. | .exit => rfl
  | .seq first second =>
      simp only [Statement.withoutLines, Statement.emissions, List.filterMap_append,
        first.assignments_withoutLines mode, second.assignments_withoutLines mode]
  | .block body => exact body.assignments_withoutLines mode guards
  | .ifThen guard body => exact body.assignments_withoutLines mode _
  | .ifElse guard body alternative =>
      simp only [Statement.withoutLines, Statement.emissions, List.filterMap_append,
        body.assignments_withoutLines mode, alternative.assignments_withoutLines mode]
  | .select branches => exact branches.assignments_withoutLines mode guards []

theorem Branches.assignments_withoutLines (mode : CombineMode) (branches : Branches)
    (guards earlier : List Alternatives) :
    (branches.withoutLines.emissions mode guards earlier).filterMap Emission.assignment? =
      (branches.emissions mode guards earlier).filterMap Emission.assignment? := by
  match branches with
  | .done => rfl
  | .otherwise body => exact body.assignments_withoutLines mode _
  | .when guard body others =>
      simp only [Branches.withoutLines, Branches.emissions, List.filterMap_append,
        body.assignments_withoutLines mode, others.assignments_withoutLines mode]

end

namespace Source

structure Assignment where
  value : String
  /-- The guards on the path to it, outermost first. -/
  path : List Alternatives

/-- What the rule of a SET has to be. -/
def Assignment.flatten (mode : CombineMode) (assignment : Assignment) : String × Alternatives :=
  (assignment.value, mode.flatten assignment.path)

mutual

/-- The SETs of a statement that is itself at the end of a path. -/
def Tree.assignments (mode : CombineMode) (path : List Alternatives) :
    {o : Bool} → Tree o → List Assignment
  | _, .set _ value => [⟨value.val.text, path⟩]
  | _, .ifThen guard body => body.assignments mode (path ++ [guard.expr.alternatives mode])
  | _, .ifElse guard body alternative =>
    body.assignments mode (path ++ [guard.expr.alternatives mode]) ++
      alternative.assignments mode (path ++ [mode.negate (guard.expr.alternatives mode)])
  | _, .block body => body.assignments mode path
  | _, .select _ choices => choices.assignments mode path []

def Body.assignments (mode : CombineMode) (path : List Alternatives) : Body → List Assignment
  | .nil => []
  | .cons first others => first.assignments mode path ++ others.assignments mode path

def Choices.assignments (mode : CombineMode) (path earlier : List Alternatives) :
    {subject : Option Variable} → Choices subject → List Assignment
  | _, .done => []
  | _, .otherwise body => body.assignments mode (path ++ [mode.noneOf earlier])
  | _, .when question body others =>
    body.assignments mode (path ++ [question.expr.alternatives mode]) ++
      others.assignments mode path (earlier ++ [question.expr.alternatives mode])

end

mutual

theorem Tree.emissions_statement (mode : CombineMode) {o : Bool} (tree : Tree o)
    (path : List Alternatives) :
    (tree.statement.emissions mode path).filterMap Emission.assignment? =
      (tree.assignments mode path).map (Assignment.flatten mode) := by
  match tree with
  | .set .. => rfl
  | .ifThen guard body => exact body.emissions_statement mode _
  | .ifElse guard body alternative =>
      simp only [Tree.statement, Statement.emissions, Tree.assignments, List.filterMap_append,
        List.map_append, body.emissions_statement mode, alternative.emissions_statement mode]
  | .block body => exact body.emissions_statements mode path
  | .select _ choices => exact choices.emissions_branches mode path []

theorem Body.emissions_statements (mode : CombineMode) (body : Body) (path : List Alternatives) :
    ((Statement.sequence body.statements).emissions mode path).filterMap Emission.assignment? =
      (body.assignments mode path).map (Assignment.flatten mode) := by
  match body with
  | .nil => rfl
  | .cons first others =>
      simp only [Body.statements, Statement.sequence, Statement.emissions, Body.assignments,
        List.filterMap_append, List.map_append, first.emissions_statement mode,
        others.emissions_statements mode]

theorem Choices.emissions_branches (mode : CombineMode) {subject : Option Variable}
    (choices : Choices subject) (path earlier : List Alternatives) :
    (choices.branches.emissions mode path earlier).filterMap Emission.assignment? =
      (choices.assignments mode path earlier).map (Assignment.flatten mode) := by
  match choices with
  | .done => rfl
  | .otherwise body => exact body.emissions_statements mode _
  | .when question body others =>
      simp only [Choices.branches, Branches.emissions, Choices.assignments, List.filterMap_append,
        List.map_append, body.emissions_statements mode, others.emissions_branches mode]

end

theorem emissions_replicate_skip (mode : CombineMode) (guards : List Alternatives) (blocks : Nat) :
    (Statement.sequence (List.replicate blocks .skip)).emissions mode guards = [] := by
  induction blocks with
  | zero => rfl
  | succ blocks ih => simpa [List.replicate_succ, Statement.sequence, Statement.emissions] using ih

/-- The rules of a routine that is read as written are its SETs, each under its own path. -/
theorem rules_of_readsAs (mode : CombineMode) {routine : Routine} {body : Body}
    (h : ReadsAs routine body) :
    ∃ table, DecisionTable.ofRoutine mode routine = .ok table ∧
      table.rules.map Rule.assignment =
        (body.assignments mode []).map (Assignment.flatten mode) := by
  obtain ⟨blocks, hbody⟩ := h
  refine ⟨_, DecisionTable.ofRoutine_eq mode routine, ?_⟩
  rw [Emission.map_assignment, ← Statement.assignments_withoutLines, hbody]
  simp only [Statement.sequence, Statement.emissions, List.nil_append, emissions_replicate_skip,
    List.append_nil]
  exact body.emissions_statements mode []

/-- A source is read as the routine that it renders exactly if no statement is misread: if no WHEN
or OTHERWISE comes where the reader takes it for a branch of a SELECT that has ended.  Then each SET
has the guards on its own path, and no other ones. -/
theorem readsAs_iff_and_rules (mode : CombineMode) {source : String} {kind : RoutineKind}
    {body : Body} (h : Renders source kind body) :
    ((∃ routine, Routine.parse source = .ok routine ∧ ReadsAs routine body) ↔
      body.ending false ≠ .misread) ∧
    (body.ending false ≠ .misread → ∃ table, DecisionTable.ofSource mode source = .ok table ∧
      table.rules.map Rule.assignment =
        (body.assignments mode []).map (Assignment.flatten mode)) := by
  refine ⟨readsAs_iff h, fun hending => ?_⟩
  obtain ⟨routine, hparse, hreads⟩ := (readsAs_iff h).2 hending
  obtain ⟨table, htable, hrules⟩ := rules_of_readsAs mode hreads
  refine ⟨table, ?_, hrules⟩
  rw [DecisionTable.ofSource, hparse]
  exact htable

def nestedSelect (wrap : Tree false → Tree false) : Body :=
  .cons
    (.select none
      (.when (.guard (.equals "&A" "1" (by decide) (by decide)))
        (.cons
          (wrap (.select none
            (.when (.guard (.equals "&B" "2" (by decide) (by decide)))
              (.cons (.setLiteral "X") .nil) .done)))
          .nil)
        (.when (.guard (.equals "&C" "3" (by decide) (by decide)))
          (.cons (.setLiteral "Y") .nil) .done)))
    .nil

def nestedSource : String :=
  "PROC STORCLAS SELECT
     WHEN (&A = 1) SELECT WHEN (&B = 2) SET &STORCLAS = 'X' END
     WHEN (&C = 3) SET &STORCLAS = 'Y' END END"

def wrappedSource : String :=
  "PROC STORCLAS SELECT
     WHEN (&A = 1) DO SELECT WHEN (&B = 2) SET &STORCLAS = 'X' END END
     WHEN (&C = 3) SET &STORCLAS = 'Y' END END"

/-- Behind the END of the inner SELECT, the WHEN of the outer one is taken for a branch of the inner
one, so that its rule gets a test too many; a DO block around the inner SELECT keeps it apart. -/
theorem nestedSelect_misread :
    (¬∃ routine, Routine.parse nestedSource = .ok routine ∧ ReadsAs routine (nestedSelect id)) ∧
    (DecisionTable.ofSource .merge nestedSource).map
        (fun table => table.rules.map Rule.assignment) ≠
      .ok (((nestedSelect id).assignments .merge []).map (Assignment.flatten .merge)) ∧
    ∃ table, DecisionTable.ofSource .merge wrappedSource = .ok table ∧
      table.rules.map Rule.assignment =
        ((nestedSelect fun tree => .block (.cons tree .nil)).assignments .merge []).map
          (Assignment.flatten .merge) := by
  have hnested : Renders nestedSource .storageClass (nestedSelect id) :=
    ⟨[.word "END"], .inr rfl, by decide +kernel⟩
  have hwrapped : Renders wrappedSource .storageClass
      (nestedSelect fun tree => .block (.cons tree .nil)) :=
    ⟨[.word "END"], .inr rfl, by decide +kernel⟩
  refine ⟨fun h => ?_, by decide +kernel, ?_⟩
  · exact (readsAs_iff_and_rules .merge hnested).1.1 h (by decide)
  · exact (readsAs_iff_and_rules .merge hwrapped).2 (by decide)

end Source

end ClassSelection
