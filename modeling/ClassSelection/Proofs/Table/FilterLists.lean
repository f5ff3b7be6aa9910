import ClassSelection.Proofs.Table.Csv
import ClassSelection.Table.Unfold

/-!
# The filter lists in CSV

The line of a filter list is put together from two records, and the first one, its
name, ends with a comma.  So a comma or a quote in the name is protected, but a line
break alone is not: such a name falls apart into its lines, and the patterns go with
the last of them.
-/

namespace ClassSelection

open Csv

/-- The name of the list holds a line break and nothing that would put it in quotes. -/
def FilterList.Breaks (list : FilterList) : Prop :=
  (∃ c ∈ list.name.toList, isLineBreak c = true) ∧ ∀ c ∈ list.name.toList, c ≠ ',' ∧ c ≠ '"'

instance (list : FilterList) : Decidable list.Breaks :=
  inferInstanceAs (Decidable (_ ∧ _))

/-- What a reader of CSV finds of a list: one record, or one for each line of the name. -/
def FilterList.csvRecords (list : FilterList) : List (List String) :=
  if list.Breaks then
    let lines := list.name.toList.splitOnP isLineBreak
    lines.dropLast.map lineRecord ++
      [[String.ofList (lines.getLastD []), list.included, list.excluded]]
  else
    [[list.name, list.included, list.excluded]]

theorem FilterList.two_le_length_csvRecords {list : FilterList} (h : list.Breaks) :
    2 ≤ list.csvRecords.length := by
  obtain ⟨c, hc, hbreak⟩ := h.1
  obtain ⟨before, after, hname⟩ := List.append_of_mem hc
  have hlines := List.splitOnP_append_cons before after hbreak
  have hbefore := List.length_pos_iff.2 (List.splitOnP_ne_nil isLineBreak before)
  have hafter := List.length_pos_iff.2 (List.splitOnP_ne_nil isLineBreak after)
  rw [csvRecords, if_pos h, hname]
  simp only [hlines, List.length_append, List.length_map, List.length_dropLast,
    List.length_singleton]
  omega

/-! ## The line of a list -/

namespace Csv

theorem read_quote (text rest : List Char) :
    Csv.read (quote text ++ ',' :: rest) = readFrom .start [String.ofList text] [] rest := by
  have hquote : quote text ++ ',' :: rest = '"' :: (doubleQuotes text ++ '"' :: ',' :: rest) := by
    simp [quote]
  have hopen (tail : List Char) : Csv.read ('"' :: tail) = readFrom .quoted [] [] tail := rfl
  rw [hquote, hopen, readFrom_doubleQuotes, readFrom_comma (by simp), List.nil_append,
    List.nil_append]

/-- The lines of a name without commas and quotes; the last one is the first field of a record. -/
theorem read_lines {text : List Char} (h : ∀ c ∈ text, c ≠ ',' ∧ c ≠ '"') (rest : List Char) :
    Csv.read (text ++ ',' :: rest) =
      (text.splitOnP isLineBreak).dropLast.map lineRecord ++
        readFrom .start [String.ofList ((text.splitOnP isLineBreak).getLastD [])] [] rest := by
  obtain ⟨after, hafter, hread⟩ := readFrom_lines h (by simp) Place.noConfusion
    (iff_of_true rfl rfl)
  rw [Csv.read, hread, readFrom_comma hafter]
  rfl

/-- A name is in quotes if it is empty or holds a comma or a quote, and not for a line break. -/
theorem record_listNameDialect (name : String) :
    ((∀ c ∈ name.toList, c ≠ ',' ∧ c ≠ '"') ∧ name ≠ "" ∧
        listNameDialect.record [name] = name.toList ++ [',']) ∨
      (¬((∀ c ∈ name.toList, c ≠ ',' ∧ c ≠ '"') ∧ name ≠ "") ∧
        listNameDialect.record [name] = quote name.toList ++ [',']) := by
  have hspecial : (listNameDialect.quoteAll || name.toList.any listNameDialect.isSpecial) = true ↔
      ¬∀ c ∈ name.toList, c ≠ ',' ∧ c ≠ '"' := by
    simp [Dialect.isSpecial, listNameDialect]
    grind
  have hrecord : listNameDialect.record [name] =
      (if listNameDialect.field name = [] then quote [] else listNameDialect.field name) ++
        [','] := by
    simp only [Dialect.record, Dialect.fields, List.isEmpty_iff]
    rfl
  rw [hrecord, Dialect.field]
  by_cases hplain : ∀ c ∈ name.toList, c ≠ ',' ∧ c ≠ '"'
  · rw [if_neg fun h => hspecial.1 h hplain]
    by_cases hname : name = ""
    · exact .inr ⟨fun h => h.2 hname, by simp [hname]⟩
    · exact .inl ⟨hplain, hname, by rw [if_neg (by simpa using hname)]⟩
  · refine .inr ⟨fun h => hplain h.1, ?_⟩
    simp [hspecial.2 hplain, quote]

theorem readFrom_patterns (name : String) (list : FilterList) (rest : List Char) :
    readFrom .start [name] [] (patternDialect.record [list.included, list.excluded] ++ rest) =
      [name, list.included, list.excluded] :: Csv.read rest := by
  have hprotects : patternDialect.Protects := Dialect.protects_of_terminator rfl
  have hrecord : patternDialect.record [list.included, list.excluded] =
      patternDialect.fields [list.included, list.excluded] ++ ['\n'] := by
    simp [Dialect.record, Dialect.fields, patternDialect]
  have hbreak : isLineBreak '\n' = true := rfl
  rw [hrecord, List.append_assoc, List.singleton_append,
    readFrom_fields hprotects hbreak (by simp) (by simp)]
  rfl

end Csv

theorem FilterList.read_csvLine (list : FilterList) (rest : List Char) :
    Csv.read (list.csvLine ++ rest) = list.csvRecords ++ Csv.read rest := by
  rcases record_listNameDialect list.name with ⟨hplain, -, hrecord⟩ | ⟨hname, hrecord⟩
  · rw [csvLine, hrecord, List.append_assoc, List.append_assoc, List.singleton_append,
      read_lines hplain, readFrom_patterns]
    by_cases hbreaks : list.Breaks
    · rw [csvRecords, if_pos hbreaks, List.append_assoc, List.singleton_append]
    · have hline : ∀ c ∈ list.name.toList, isLineBreak c = false :=
        fun c hc => Bool.eq_false_iff.2 fun hbreak => hbreaks ⟨⟨c, hc, hbreak⟩, hplain⟩
      rw [csvRecords, if_neg hbreaks, List.splitOnP_eq_singleton hline]
      simp
  · have hbreaks : ¬list.Breaks := by
      rintro ⟨⟨c, hc, -⟩, hplain⟩
      exact hname ⟨hplain, by rintro hempty; simp [hempty] at hc⟩
    rw [csvLine, hrecord, List.append_assoc, List.append_assoc, List.singleton_append, read_quote,
      readFrom_patterns, csvRecords, if_neg hbreaks, String.ofList_toList, List.singleton_append]

/-! ## The section -/

theorem DecisionTable.read_csvFilterLists (table : DecisionTable) :
    Csv.read table.csvFilterLists =
      ["FILTLISTS"] :: ["NAME", "INCLUDE", "EXCLUDE"] ::
        table.filterLists.flatMap FilterList.csvRecords := by
  have hlists (lists : List FilterList) :
      Csv.read (lists.flatMap FilterList.csvLine) = lists.flatMap FilterList.csvRecords := by
    induction lists with
    | nil => rfl
    | cons list lists ih => rw [List.flatMap_cons, FilterList.read_csvLine, ih, List.flatMap_cons]
  rw [csvFilterLists, List.append_assoc, read_record rfl (by simp), read_record rfl (by simp),
    hlists]

theorem FilterList.length_le_length_flatMap_csvRecords (lists : List FilterList) :
    lists.length ≤ (lists.flatMap csvRecords).length := by
  induction lists with
  | nil => exact Nat.le_refl 0
  | cons list lists ih =>
      have hlist : 1 ≤ list.csvRecords.length := by
        by_cases h : list.Breaks
        · exact Nat.le_of_succ_le (two_le_length_csvRecords h)
        · simp [csvRecords, h]
      rw [List.flatMap_cons, List.length_append, List.length_cons]
      omega

/-- The records are those of the lists exactly if no name breaks: otherwise there are too many. -/
theorem FilterList.flatMap_csvRecords_eq_iff (lists : List FilterList) :
    lists.flatMap csvRecords =
        lists.map (fun list => [list.name, list.included, list.excluded]) ↔
      ∀ list ∈ lists, ¬list.Breaks := by
  induction lists with
  | nil => simp
  | cons list lists ih =>
      rw [List.flatMap_cons, List.map_cons, List.forall_mem_cons]
      by_cases h : list.Breaks
      · refine iff_of_false (fun heq => ?_) fun hnone => hnone.1 h
        have htwo := two_le_length_csvRecords h
        have hothers := length_le_length_flatMap_csvRecords lists
        have hlength := congrArg List.length heq
        simp only [List.length_append, List.length_cons, List.length_map] at hlength
        omega
      · rw [csvRecords, if_neg h, List.singleton_append, List.cons_inj_right, ih]
        simp [h]

/-- What is written behind the blank line reads as the two headers and the records of the filter
lists, with all their patterns; there is one record for each list, with its name, exactly if no name
holds a line break without a comma or a quote. -/
theorem read_toCsv_filterLists (table : DecisionTable) (style : ComparatorStyle) :
    ∃ text before after, table.toCsv style = .ok text ∧
      text.toList = before ++ '\n' :: after ∧
      Csv.read text.toList = Csv.read before ++ [] :: Csv.read after ∧
      Csv.read before = table.csvHeader :: table.csvRows style ∧
      Csv.read after = ["FILTLISTS"] :: ["NAME", "INCLUDE", "EXCLUDE"] ::
        table.filterLists.flatMap FilterList.csvRecords ∧
      (Csv.read after = ["FILTLISTS"] :: ["NAME", "INCLUDE", "EXCLUDE"] ::
          table.filterLists.map (fun list => [list.name, list.included, list.excluded]) ↔
        ∀ list ∈ table.filterLists, ¬list.Breaks) := by
  have hafter := table.read_csvFilterLists
  have hbefore := table.read_csvRules style []
  rw [List.append_nil] at hbefore
  refine ⟨_, (table.csvHeader :: table.csvRows style).flatMap Csv.ruleDialect.record,
    table.csvFilterLists, table.toCsv_eq_ok style, String.toList_ofList, ?_, ?_, hafter, ?_⟩
  · rw [String.toList_ofList, table.read_csvRules, Csv.read_lineBreak rfl, hbefore]
    simp [Csv.read, readFrom]
  · simpa [Csv.read, readFrom] using hbefore
  · rw [hafter, List.cons_inj_right, List.cons_inj_right]
    exact FilterList.flatMap_csvRecords_eq_iff table.filterLists

/-- The name of a list can be a literal with a line break in it. -/
example : ((DecisionTable.ofSource .merge "FILTLIST 'A\rB' INCLUDE(X)").bind
    fun table => table.toCsv .mnemonic).toOption.map (fun text => Csv.read text.toList) =
      some [["", "Seq", "Exit", "LineNum"], [], ["FILTLISTS"], ["NAME", "INCLUDE", "EXCLUDE"],
        ["'A"], ["B'", "X", ""]] := by
  decide +kernel

end ClassSelection
