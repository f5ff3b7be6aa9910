import ClassSelection.Proofs.Reader.Lines
import ClassSelection.Proofs.Table.Emission

/-!
# Lines in a table

A table depends on the tokens of its source alone, but for the lines that its
rules, anomalies and errors give.  Lines pass through the unfolding untouched,
so erasing them from the statement or from the rules comes to the same.
-/

namespace ClassSelection

def Rule.withoutLine (rule : Rule) : Rule :=
  { rule with line := 0 }

def Anomaly.withoutLine (anomaly : Anomaly) : Anomaly :=
  { anomaly with line := 0 }

def DecisionTable.withoutLines (table : DecisionTable) : DecisionTable :=
  { table with
    rules := table.rules.map Rule.withoutLine
    anomalies := table.anomalies.map Anomaly.withoutLine }

def DecisionTable.outcome (mode : CombineMode) (source : String) : Except Error DecisionTable :=
  ((ofSource mode source).mapError Error.withoutLine).map withoutLines

def Emission.withoutLine : Emission → Emission
  | rule target alternatives _ => rule target alternatives 0
  | exit => exit

mutual

theorem Statement.emissions_withoutLines (mode : CombineMode) (statement : Statement)
    (guards : List Alternatives) :
    statement.withoutLines.emissions mode guards =
      (statement.emissions mode guards).map Emission.withoutLine := by
  match statement with
  | .skip => rfl
  | .assign value line => rfl
  | .exit => rfl
  | .seq first second =>
      simp only [Statement.withoutLines, Statement.emissions, List.map_append,
        first.emissions_withoutLines mode, second.emissions_withoutLines mode]
  | .block body => exact body.emissions_withoutLines mode guards
  | .ifThen guard body => exact body.emissions_withoutLines mode _
  | .ifElse guard body alternative =>
      simp only [Statement.withoutLines, Statement.emissions, List.map_append,
        body.emissions_withoutLines mode, alternative.emissions_withoutLines mode]
  | .select branches => exact branches.emissions_withoutLines mode guards []

theorem Branches.emissions_withoutLines (mode : CombineMode) (branches : Branches)
    (guards earlier : List Alternatives) :
    branches.withoutLines.emissions mode guards earlier =
      (branches.emissions mode guards earlier).map Emission.withoutLine := by
  match branches with
  | .done => rfl
  | .otherwise body => exact body.emissions_withoutLines mode _
  | .when guard body others =>
      simp only [Branches.withoutLines, Branches.emissions, List.map_append,
        body.emissions_withoutLines mode, others.emissions_withoutLines mode]

end

theorem Emission.map_withoutLine_apply (rules : List Rule) (emission : Emission) :
    (apply rules emission).map Rule.withoutLine =
      apply (rules.map Rule.withoutLine) emission.withoutLine := by
  cases emission with
  | rule target alternatives line => simp [apply, withoutLine, Rule.withoutLine]
  | exit => cases rules <;> simp [apply, withoutLine, Rule.withoutLine]

theorem Emission.map_withoutLine_foldl_apply (emissions : List Emission) (rules : List Rule) :
    (emissions.foldl apply rules).map Rule.withoutLine =
      (emissions.map withoutLine).foldl apply (rules.map Rule.withoutLine) := by
  induction emissions generalizing rules with
  | nil => rfl
  | cons emission emissions ih =>
      rw [List.foldl_cons, ih, map_withoutLine_apply, List.map_cons, List.foldl_cons]

theorem Statement.Alike.rules {first second : Statement} (h : first.Alike second)
    (mode : CombineMode) :
    ((first.emissions mode []).foldl Emission.apply []).map Rule.withoutLine =
      ((second.emissions mode []).foldl Emission.apply []).map Rule.withoutLine := by
  rw [Emission.map_withoutLine_foldl_apply, Emission.map_withoutLine_foldl_apply,
    ← Statement.emissions_withoutLines, ← Statement.emissions_withoutLines, h]

namespace DecisionTable

/-- The table and its errors depend on the source through its tokens only. -/
theorem outcome_of_tokens (mode : CombineMode) {source other : String}
    (h : (TokenStream.ofSource source).toList = (TokenStream.ofSource other).toList) :
    outcome mode source = outcome mode other := by
  have hreadings : (Reading.ofSource source).Alike (Reading.ofSource other) :=
    ⟨TokenStream.alike_ofSource h, rfl, rfl, rfl, rfl, rfl⟩
  have hbodies := Reader.alike_routineBody hreadings
  unfold outcome ofSource Routine.parse
  generalize Reader.routineBody (.ofSource source) = run,
    Reader.routineBody (.ofSource other) = run' at hbodies ⊢
  cases hbodies with
  | error herror => exact congrArg Except.error herror
  | @ok body body' final final' hbody hfinal =>
      have hrules := hbody.rules mode
      have hanomalies : final.anomalies.map Anomaly.withoutLine =
          final'.anomalies.map Anomaly.withoutLine := by
        have hkinds := congrArg (List.map (Anomaly.mk 0)) hfinal.anomalies
        rwa [List.map_map, List.map_map] at hkinds
      simp only [bind, Except.bind, ofRoutine_eq, Except.mapError, Except.map, withoutLines,
        List.map_reverse, hrules, hanomalies, hfinal.kind, hfinal.registry, hfinal.filterLists]

/-- Layout, comments, sequence numbers and small letters leave the table as it is. -/
theorem outcome_of_relaidTokens :
    let source := "PROC STORCLAS IF &X = 1 THEN SET &STORCLAS = 'A' END"
    let other := "proc storclas 00000100\n  if &x=1 then /* one */\n  set &storclas = 'a';\nend"
    (TokenStream.ofSource source).toList = (TokenStream.ofSource other).toList ∧
      ∀ mode, outcome mode source = outcome mode other := by
  intro source other
  have htokens : (TokenStream.ofSource source).toList = (TokenStream.ofSource other).toList := by
    decide +kernel
  exact ⟨htokens, fun mode => outcome_of_tokens mode htokens⟩

end DecisionTable

end ClassSelection
