import ClassSelection.Proofs.Reader.Places
import ClassSelection.Proofs.Table.Exits

/-!
# The numbers and lines of rules

The rules of a table come from the SETs that its run dispatches, in the order of
the source.  They are numbered from 1, and each has the line of the token that
its SET assigns; so the lines of the rules do not decrease, and neither do those
of the anomalies.
-/

namespace ClassSelection

/-! ## Numbers -/

/-- The rules are numbered from 1. 32 bits hold the numbers of fewer than `2 ^ 32` rules. -/
def Numbered (rules : List Rule) : Prop :=
  ∀ i rule, rules[i]? = some rule → rule.sequence = i + 1

theorem Numbered.apply {rules : List Rule} (h : Numbered rules.reverse) (emission : Emission) :
    Numbered (emission.apply rules).reverse := by
  cases emission with
  | rule target alternatives line =>
      intro i rule hrule
      rw [Emission.apply, List.reverse_cons, getElem?_concat_eq_some] at hrule
      obtain hrule | ⟨rfl, rfl⟩ := hrule
      · exact h i rule hrule
      · rw [List.length_reverse]
  | exit =>
      cases rules with
      | nil => exact h
      | cons latest earlier =>
          intro i rule hrule
          rw [List.reverse_cons] at h
          rw [Emission.apply, List.reverse_cons, getElem?_concat_eq_some] at hrule
          obtain hrule | ⟨rfl, rfl⟩ := hrule
          · exact h i rule (getElem?_concat_eq_some.2 (.inl hrule))
          · exact h _ latest (getElem?_concat_eq_some.2 (.inr ⟨rfl, rfl⟩))

theorem numbered_foldl_apply {rules : List Rule} (h : Numbered rules.reverse)
    (emissions : List Emission) : Numbered (emissions.foldl Emission.apply rules).reverse := by
  induction emissions generalizing rules with
  | nil => exact h
  | cons emission emissions ih => exact ih (h.apply emission)

variable {source : String} {mode : CombineMode} {table : DecisionTable}

theorem numbered_of_ofSource (h : DecisionTable.ofSource mode source = .ok table) :
    Numbered table.rules := by
  have hnone : Numbered (List.reverse []) := by simp [Numbered]
  obtain ⟨body, s, -, hrules⟩ := ofSource_of_ok h
  rw [hrules]
  exact numbered_foldl_apply hnone _

/-! ## Lines -/

open Reader (ComesTo DispatchesSet SetStatement dispatchesSet_iff exists_orderedVisits
  reports_routineBody routineBody setStatement_of_comesTo)

/-- The rule is that of the SET at an index: it is for the token that the SET assigns, and has the
line on which that token stands. -/
structure SetRule (source : String) (n : Nat) (rule : Rule) : Prop where
  set : SetStatement source (n + 1)
  target : rule.target = (tokenAt source (n + 3)).text
  line : StandsOn source (n + 3) rule.line

/-- The SETs of a run emit what their tokens say, and nothing else adds a rule. -/
theorem sites_of_emits {places : List Reading} {emissions : List Emission}
    (hplaces : ∀ place ∈ places, ComesTo source place ∧ place.AtMark)
    (h : List.Forall₂ Emits places emissions) :
    List.Forall₂
      (fun place site => SetStatement source (place.taken source + 1) ∧
        site.1 = (tokenAt source (place.taken source + 3)).text ∧
        site.2.2 = lineAt source (place.taken source + 3))
      (places.filter Reading.atSet) (emissions.filterMap Emission.site?) := by
  induction h with
  | nil => exact .nil
  | @cons place emission places emissions hemits _ ih =>
      obtain ⟨⟨hcomes, hmark⟩, hplaces⟩ := List.forall_mem_cons.1 hplaces
      have hset := atSet_eq_isRule hmark hemits
      cases emission with
      | rule target alternatives line =>
          have hsite : (Emission.rule target alternatives line).site? =
              some (target, alternatives, line) := rfl
          rw [List.filter_cons_of_pos hset, List.filterMap_cons_some hsite]
          refine .cons ?_ (ih hplaces)
          obtain ⟨s, hrun⟩ := hemits
          obtain ⟨hstatement, hassign, -⟩ :=
            setStatement_of_comesTo hcomes (eq_of_beq hset) hrun
          cases hassign
          exact ⟨hstatement, rfl, rfl⟩
      | exit =>
          rw [List.filter_cons_of_neg (by simp [hset, Emission.isRule]),
            List.filterMap_cons_none rfl]
          exact ih hplaces

theorem exists_setRules (h : DecisionTable.ofSource mode source = .ok table) :
    ∃ sets : List Nat, (∀ n, n ∈ sets ↔ DispatchesSet source n) ∧ sets.Pairwise (· < ·) ∧
      List.Forall₂ (SetRule source) sets table.rules := by
  obtain ⟨places, marks, last, hmem, hordered, hvisits, hmarks⟩ := exists_orderedVisits source
  obtain ⟨body, s, hrun, hrules⟩ := ofSource_of_ok h
  have hset {place : Reading} (hplace : place ∈ places.filter Reading.atSet) :
      ComesTo source place ∧ place.tokens.next.1 = .word "SET" := by
    obtain ⟨hplace, hset⟩ := List.mem_filter.1 hplace
    exact ⟨((hmem place).1 hplace).1, eq_of_beq hset⟩
  refine ⟨(places.filter Reading.atSet).map (Reading.taken source), fun n => ?_, ?_, ?_⟩
  · rw [dispatchesSet_iff, List.mem_map]
    constructor
    · rintro ⟨place, hplace, rfl⟩
      exact ⟨place, (hset hplace).1, (hset hplace).2, rfl⟩
    · rintro ⟨place, hcomes, hnext, rfl⟩
      have hplace : place ∈ places := (hmem place).2 ⟨hcomes, .inl hnext⟩
      exact ⟨place, List.mem_filter.2 ⟨hplace, by simp [Reading.atSet, hnext]⟩, rfl⟩
  · refine List.pairwise_map.2 ((hordered.filter _).imp_of_mem fun hplace hlater h => ?_)
    have hle := h.taken_le (hset hplace).1 (hset hplace).2 (hset hlater).1 (hset hlater).2
    omega
  · rw [hrun, hmarks body s hrun, ← body.map_mark_emissions mode []] at hvisits
    have hemits := hvisits.completes
    rw [List.forall₂_map_right_iff] at hemits
    have hsites : table.rules.map Rule.site =
        (body.emissions mode []).filterMap Emission.site? := by
      rw [hrules, Emission.sites_foldl_apply]
      rfl
    have hplaces := sites_of_emits (fun place hplace => (hmem place).1 hplace) hemits
    rw [← hsites, List.forall₂_map_right_iff] at hplaces
    refine List.forall₂_map_left_iff.2 (hplaces.imp fun place rule h => ?_)
    obtain ⟨hstatement, htarget, hline⟩ := h
    have hstands : StandsOn source (place.taken source + 3)
        (lineAt source (place.taken source + 3)) := standsOn_lineAt hstatement.value
    rw [← hline] at hstands
    exact ⟨hstatement, htarget, hstands⟩

theorem pairwise_line_le_of_setRules {sets : List Nat} {rules : List Rule}
    (hsets : sets.Pairwise (· < ·)) (h : List.Forall₂ (SetRule source) sets rules) :
    (rules.map (·.line)).Pairwise (· ≤ ·) := by
  have hlines : sets.map (fun n => lineAt source (n + 3)) = rules.map (·.line) := by
    rw [← List.forall₂_eq_eq_eq, List.forall₂_map_left_iff, List.forall₂_map_right_iff]
    exact h.imp fun n rule h => h.line.eq_lineAt.symm
  rw [← hlines]
  exact List.pairwise_map.2 (hsets.imp fun h => lineAt_mono (by omega))

theorem Noted.pairwise_line_le {mark : Nat} {anomalies : List Anomaly}
    (h : Noted source mark anomalies) : (anomalies.map (·.line)).Pairwise (· ≤ ·) := by
  suffices hlines : (anomalies.map (·.line)).Pairwise (· ≤ ·) ∧
      ∀ anomaly ∈ anomalies, anomaly.line ≤ lineAt source mark from hlines.1
  induction h with
  | nil => simp
  | @snoc mark last anomalies anomaly _ hlast harises ih =>
      obtain ⟨hordered, hbefore⟩ := ih
      -- a later token may have been looked at, but no token before the last one
      have hline : lineAt source last ≤ anomaly.line ∧
          anomaly.line ≤ lineAt source (last + 1) := by
        cases harises with
        | unknownKeyword => exact ⟨Nat.le_refl _, lineAt_le_succ _ _⟩
        | swappedQualified => exact ⟨Nat.le_refl _, lineAt_le_succ _ _⟩
        | swappedPlain => exact ⟨lineAt_le_succ _ _, Nat.le_refl _⟩
      have hearlier : ∀ earlier ∈ anomalies, earlier.line ≤ lineAt source last :=
        fun earlier hearlier => (hbefore earlier hearlier).trans (lineAt_mono hlast)
      rw [List.map_append, List.pairwise_append]
      refine ⟨⟨hordered, List.pairwise_singleton _ _, ?_⟩, ?_⟩
      · intro line hmap later hlater
        obtain ⟨earlier, hmem, rfl⟩ := List.mem_map.1 hmap
        obtain rfl := List.mem_singleton.1 hlater
        exact (hearlier earlier hmem).trans hline.1
      · intro earlier hmem
        rcases List.mem_append.1 hmem with hmem | hmem
        · exact ((hearlier earlier hmem).trans hline.1).trans hline.2
        · obtain rfl := List.mem_singleton.1 hmem
          exact hline.2

theorem exists_noted (h : DecisionTable.ofSource mode source = .ok table) :
    ∃ mark, Noted source mark table.anomalies := by
  obtain ⟨body, s, hrun, -⟩ := ofSource_of_ok h
  rw [DecisionTable.ofSource, Routine.parse, hrun] at h
  obtain rfl := Except.ok.inj ((DecisionTable.ofRoutine_eq mode _).symm.trans h)
  have hbody : Reader.Reports source routineBody := reports_routineBody
  obtain ⟨mark, position, hs, -⟩ :=
    (hbody 0 ⟨0, false⟩ (Nat.le_refl _) _ (Reading.stands_ofSource source)).1 body s hrun
  exact ⟨mark, hs.noted⟩

/-! ## Tables -/

/-- The rules of a table are those of the SETs that its run dispatches, one for each in the order of
the source.  They are numbered from 1, in numbers that 32 bits hold for fewer than `2 ^ 32` rules,
each has the line on which the token that its SET assigns stands, and neither the lines of the rules
nor those of the anomalies decrease. -/
theorem setRules_of_ofSource (h : DecisionTable.ofSource mode source = .ok table) :
    (∃ sets : List Nat, (∀ n, n ∈ sets ↔ DispatchesSet source n) ∧ sets.Pairwise (· < ·) ∧
      List.Forall₂ (SetRule source) sets table.rules) ∧
    (∀ i rule, table.rules[i]? = some rule → rule.sequence = i + 1) ∧
    (table.rules.map (·.line)).Pairwise (· ≤ ·) ∧
    (table.anomalies.map (·.line)).Pairwise (· ≤ ·) := by
  obtain ⟨sets, hmem, hordered, hrules⟩ := exists_setRules h
  obtain ⟨mark, hnoted⟩ := exists_noted h
  exact ⟨⟨sets, hmem, hordered, hrules⟩, numbered_of_ofSource h,
    pairwise_line_le_of_setRules hordered hrules, hnoted.pairwise_line_le⟩

/-- A stray WHEN, an unknown keyword, swapped operands and missing ENDs are passed over; the value
of the last SET comes behind a comment of two lines. -/
theorem setRules_of_malformed :
    let source := "PROC STORCLAS\nWHEN\nIF 'A' = &X THEN DO\nSET &STORCLAS =\n'B'\nFROB\n" ++
      "SELECT WHEN(&Y = 1) SET &STORCLAS = 'C' END\nEND ELSE DO SET\n&STORCLAS EQ /* D\nE */ D"
    ∃ table, DecisionTable.ofSource .merge source = .ok table ∧
      table.rules.map (fun rule => (rule.sequence, rule.line)) = [(1, 5), (2, 7), (3, 10)] ∧
      table.anomalies.map (·.line) = [2, 3, 6] ∧
      ∃ sets : List Nat, (∀ n, n ∈ sets ↔ DispatchesSet source n) ∧ sets.Pairwise (· < ·) ∧
        List.Forall₂ (SetRule source) sets table.rules := by
  intro source
  have hrun : (DecisionTable.ofSource .merge source).map (fun table =>
      (table.rules.map fun rule => (rule.sequence, rule.line), table.anomalies.map (·.line))) =
        .ok ([(1, 5), (2, 7), (3, 10)], [2, 3, 6]) := by
    decide +kernel
  cases htable : DecisionTable.ofSource .merge source with
  | error error =>
      rw [htable] at hrun
      cases hrun
  | ok table =>
      rw [htable] at hrun
      obtain ⟨hrules, hanomalies⟩ := Prod.mk.inj (Except.ok.inj hrun)
      exact ⟨table, rfl, hrules, hanomalies, (setRules_of_ofSource htable).1⟩

end ClassSelection
