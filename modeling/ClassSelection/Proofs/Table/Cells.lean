import ClassSelection.Proofs.Condition.Cell
import ClassSelection.Proofs.Table.WellFormed

/-!
# Rows and their conditions

The tests of a table are as they were read, so the cells of a row can be read
back.  Every subject has a column; a row therefore determines its condition.
-/

namespace ClassSelection

/-- What is in a rule is as it was read, the comparators apart. -/
theorem DecisionTable.asRead_of_ofSource {mode : CombineMode} {source : String}
    {table : DecisionTable} (h : ofSource mode source = .ok table) {rule : Rule}
    (hrule : rule ∈ table.rules) :
    ∀ test ∈ rule.alternatives.tests, test.AsRead table.registry.names := by
  rw [ofSource] at h
  cases hparse : Routine.parse source with
  | error error =>
      rw [hparse] at h
      cases h
  | ok routine =>
      rw [hparse] at h
      obtain rfl : _ = table := Except.ok.inj ((ofRoutine_eq mode routine).symm.trans h)
      obtain ⟨-, hbody⟩ := Routine.wellFormed_of_parse hparse
      have hguards : ∀ guard ∈ routine.body.guards, ∀ test ∈ (guard.alternatives mode).tests,
          test.AsRead routine.registry.names := fun guard hguard test htest =>
        hbody guard hguard test (Expr.mem_tests_alternatives.1 htest)
      have hkept : Alternatives.Kept mode fun alternatives =>
          ∀ test ∈ alternatives.tests, test.AsRead routine.registry.names :=
        .forall_tests mode fun _ => Test.AsRead.negate
      exact routine.body.of_mem_emissions hkept hguards (by simp) (Emission.mem_of_mem_rules hrule)

theorem Condition.mem_tests_iff_of_cells {names : List String} {style : ComparatorStyle}
    {condition other : Condition}
    (h : ∀ test ∈ condition.tests, test.subject ∈ names ∧ Written test.value)
    (hother : ∀ test ∈ other.tests, Written test.value)
    (hcells : ∀ name ∈ names, condition.cell name style = other.cell name style) {test : Test}
    (htest : test ∈ condition.tests) : test ∈ other.tests := by
  have hcell := congrArg (Cell.read test.subject) (hcells test.subject (h test htest).1)
  rw [Cell.read_cell (fun test htest => (h test htest).2), Cell.read_cell hother] at hcell
  have hmem : test ∈ condition.testsOf test.subject :=
    List.mem_filter.2 ⟨htest, beq_self_eq_true _⟩
  rw [hcell] at hmem
  exact (List.mem_filter.1 hmem).1

/-- Conditions on registered variables, with values as they are read, have the same tests if their
cells are the same under every variable.  Those of a table are such conditions. -/
theorem cells_determine_tests :
    (∀ (names : List String) (style : ComparatorStyle) (condition other : Condition),
      (∀ test ∈ condition.tests ++ other.tests, test.subject ∈ names ∧ Written test.value) →
      (∀ name ∈ names, condition.cell name style = other.cell name style) →
      ∀ test, test ∈ condition.tests ↔ test ∈ other.tests) ∧
    ∀ (mode : CombineMode) (source : String) (table : DecisionTable),
      DecisionTable.ofSource mode source = .ok table →
      (∀ rule ∈ table.rules, ∀ condition ∈ rule.alternatives, ∀ test ∈ condition.tests,
        test.subject ∈ table.registry.names ∧ Written test.value) ∧
      ∀ style, ∀ rule ∈ table.rules, ∀ condition ∈ rule.alternatives,
        ∀ rule' ∈ table.rules, ∀ other ∈ rule'.alternatives,
        (∀ name ∈ table.registry.names, condition.cell name style = other.cell name style) →
        ∀ test, test ∈ condition.tests ↔ test ∈ other.tests := by
  have hdetermine : ∀ (names : List String) (style : ComparatorStyle) (condition other : Condition),
      (∀ test ∈ condition.tests ++ other.tests, test.subject ∈ names ∧ Written test.value) →
      (∀ name ∈ names, condition.cell name style = other.cell name style) →
      ∀ test, test ∈ condition.tests ↔ test ∈ other.tests := by
    intro names style condition other htests hcells test
    obtain ⟨hcondition, hother⟩ := List.forall_mem_append.1 htests
    exact ⟨Condition.mem_tests_iff_of_cells hcondition (fun t ht => (hother t ht).2) hcells,
      Condition.mem_tests_iff_of_cells hother (fun t ht => (hcondition t ht).2)
        fun name hname => (hcells name hname).symm⟩
  refine ⟨hdetermine, fun mode source table htable => ?_⟩
  have htests : ∀ rule ∈ table.rules, ∀ condition ∈ rule.alternatives, ∀ test ∈ condition.tests,
      test.subject ∈ table.registry.names ∧ Written test.value := by
    intro rule hrule condition hcondition test htest
    have hread := DecisionTable.asRead_of_ofSource htable hrule test
      (Alternatives.mem_tests.2 ⟨condition, hcondition, htest⟩)
    exact ⟨hread.registered, hread.written⟩
  refine ⟨htests, fun style rule hrule condition hcondition rule' hrule' other hother => ?_⟩
  exact hdetermine _ style condition other (List.forall_mem_append.2
    ⟨htests rule hrule condition hcondition, htests rule' hrule' other hother⟩)

def DecisionTable.cellsAgree (table : DecisionTable) (style : ComparatorStyle) : Bool :=
  let conditions := table.rules.flatMap Rule.alternatives
  conditions.all fun condition => conditions.all fun other =>
    table.registry.names.all fun name => condition.cell name style == other.cell name style

/-- Two orders of the same tests, one with a literal that reads like two tests. -/
theorem cells_determine_tests_of_orders :
    let source := "IF &A = 1 && &B = 'X; GT 5' THEN SET &STORCLAS = 'C'
      IF &B = 'X; GT 5' && &A = 1 THEN SET &STORCLAS = 'D'"
    ∃ table, DecisionTable.ofSource .merge source = .ok table ∧
      table.rules.map (·.alternatives.map (·.cell "&B" .mnemonic)) =
        [["'X; GT 5'"], ["'X; GT 5'"]] ∧
      ∀ rule ∈ table.rules, ∀ condition ∈ rule.alternatives,
        ∀ rule' ∈ table.rules, ∀ other ∈ rule'.alternatives,
        ∀ test, test ∈ condition.tests ↔ test ∈ other.tests := by
  intro source
  have hrows : (DecisionTable.ofSource .merge source).map (fun table =>
      (table.rules.map (·.alternatives.map (·.cell "&B" .mnemonic)), table.cellsAgree .mnemonic)) =
      .ok ([["'X; GT 5'"], ["'X; GT 5'"]], true) := by
    decide +kernel
  cases htable : DecisionTable.ofSource .merge source with
  | error error =>
      rw [htable] at hrows
      cases hrows
  | ok table =>
      rw [htable] at hrows
      obtain ⟨hcells, hagree⟩ := Prod.mk.inj (Except.ok.inj hrows)
      refine ⟨table, rfl, hcells, ?_⟩
      intro rule hrule condition hcondition rule' hrule' other hother
      simp only [DecisionTable.cellsAgree, List.all_eq_true, List.mem_flatMap, beq_iff_eq] at hagree
      exact (cells_determine_tests.2 .merge source table htable).2 .mnemonic rule hrule condition
        hcondition rule' hrule' other hother
        (hagree condition ⟨rule, hrule, hcondition⟩ other ⟨rule', hrule', hother⟩)

end ClassSelection
