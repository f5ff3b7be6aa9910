import ClassSelection.Proofs.Csv.Reading
import ClassSelection.Table.Csv

/-!
# The rules in CSV

Every table can be written, and a reader of CSV takes its rules back: the header
and one record for each row, up to the blank line before the filter lists.
-/

namespace ClassSelection

theorem DecisionTable.length_of_mem_csvRows {table : DecisionTable} {style : ComparatorStyle}
    {row : List String} (h : row ∈ table.csvRows style) :
    row.length = table.csvHeader.length := by
  obtain ⟨rule, -, hrow⟩ := List.mem_flatMap.1 h
  obtain ⟨condition, -, rfl⟩ := List.mem_map.1 hrow
  simp [csvHeader]

theorem DecisionTable.toCsv_eq_ok (table : DecisionTable) (style : ComparatorStyle) :
    table.toCsv style = .ok (String.ofList
      ((table.csvHeader :: table.csvRows style).flatMap Csv.ruleDialect.record ++
        '\n' :: table.csvFilterLists)) := by
  have hlengths : ∀ row ∈ table.csvHeader :: table.csvRows style,
      row.length = table.csvHeader.length := by
    intro row hrow
    rcases List.mem_cons.1 hrow with rfl | hrow
    · rfl
    · exact length_of_mem_csvRows hrow
  rw [toCsv, Csv.Dialect.table, Csv.ruleDialect.records_eq_ok hlengths]

theorem DecisionTable.read_csvRules (table : DecisionTable) (style : ComparatorStyle)
    (rest : List Char) :
    Csv.read ((table.csvHeader :: table.csvRows style).flatMap Csv.ruleDialect.record ++ rest) =
      (table.csvHeader :: table.csvRows style) ++ Csv.read rest := by
  refine Csv.read_records rfl ?_ rest
  rintro record hrecord rfl
  rcases List.mem_cons.1 hrecord with h | h
  · simp [csvHeader] at h
  · simpa [csvHeader] using length_of_mem_csvRows h

/-- Writing a table never fails, and what is written before the first blank line reads as the header
and, rule by rule and condition by condition, one record for each row, as long as the header. -/
theorem read_toCsv (table : DecisionTable) (style : ComparatorStyle) :
    ∃ text rows, table.toCsv style = .ok text ∧ [] ∈ Csv.read text.toList ∧
      (Csv.read text.toList).takeWhile (· ≠ []) =
        (table.routineName :: table.registry.names ++ ["Seq", "Exit", "LineNum"]) :: rows ∧
      rows = table.rules.flatMap (fun rule => rule.alternatives.map fun condition =>
        rule.target :: table.registry.names.map (fun name => condition.cell name style) ++
          [toString rule.sequence, if rule.hasExit then "Y" else "N", toString rule.line]) ∧
      rows.length = table.rowCount ∧
      ∀ row ∈ rows, row.length = table.registry.names.length + 4 := by
  have hlengths : ∀ row ∈ table.csvRows style, row.length = table.csvHeader.length :=
    fun row hrow => DecisionTable.length_of_mem_csvRows hrow
  have hrecords : ∀ record ∈ table.csvHeader :: table.csvRows style, record ≠ [] := by
    rintro record hrecord rfl
    rcases List.mem_cons.1 hrecord with h | h
    · simp [DecisionTable.csvHeader] at h
    · simpa [DecisionTable.csvHeader] using hlengths [] h
  have hread : Csv.read (String.ofList
      ((table.csvHeader :: table.csvRows style).flatMap Csv.ruleDialect.record ++
        '\n' :: table.csvFilterLists)).toList =
      (table.csvHeader :: table.csvRows style) ++ [] :: Csv.read table.csvFilterLists := by
    rw [String.toList_ofList, Csv.read_records rfl hrecords, Csv.read_lineBreak rfl]
  refine ⟨_, table.csvRows style, table.toCsv_eq_ok style, ?_, ?_, rfl, ?_, ?_⟩
  · rw [hread]
    simp
  · rw [hread, List.takeWhile_append_of_pos (by simpa using hrecords)]
    simp [DecisionTable.csvHeader]
  · simp [DecisionTable.csvRows, DecisionTable.rowCount, Rule.csvRows, List.length_flatMap]
  · simpa [DecisionTable.csvHeader] using hlengths

end ClassSelection
