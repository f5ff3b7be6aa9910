import ClassSelection.Extract
import ClassSelection.Proofs.File.System
import ClassSelection.Proofs.Table.Csv

/-!
# Extraction in a file system

An extraction writes at most once, as its last step.  If it fails the file
system is the one it began with; if it succeeds one file has been placed, with
the text of the table, and the summary counts what is in it.
-/

namespace ClassSelection

def FileSystem.extract (system : FileSystem) (input : String) (output : Option String)
    (settings : Settings) : Except Error Summary × FileSystem :=
  (ClassSelection.extract input output settings : ExceptT Error (StateM FileSystem) Summary).run.run
    system

/-! ## Tables as texts -/

namespace DecisionTable

theorem write_eq_ok (table : DecisionTable) (format : OutputFormat) (style : ComparatorStyle) :
    ∃ text, table.write format style = .ok text := by
  cases format with
  | csv => exact ⟨_, table.toCsv_eq_ok style⟩
  | json => exact ⟨_, rfl⟩

theorem length_csvRows (table : DecisionTable) (style : ComparatorStyle) :
    (table.csvRows style).length = table.rowCount := by
  simp [csvRows, rowCount, Rule.csvRows, List.length_flatMap]

/-- Before its first blank line a CSV text holds the header and the rows, a record each. -/
theorem records_toCsv {table : DecisionTable} {style : ComparatorStyle} {text : String}
    (h : table.toCsv style = .ok text) :
    (Csv.read text.toList).takeWhile (· ≠ []) = table.csvHeader :: table.csvRows style := by
  have hrecords : ∀ record ∈ table.csvHeader :: table.csvRows style, record ≠ [] := by
    intro record hrecord
    have hlength : record.length = table.csvHeader.length := by
      rcases List.mem_cons.1 hrecord with rfl | hrow
      · rfl
      · exact length_of_mem_csvRows hrow
    exact List.ne_nil_of_length_pos (by simp [hlength, csvHeader])
  obtain rfl := Except.ok.inj ((table.toCsv_eq_ok style).symm.trans h)
  rw [String.toList_ofList, Csv.read_records rfl hrecords, Csv.read_lineBreak rfl,
    List.takeWhile_append_of_pos (by simpa using hrecords)]
  simp

end DecisionTable

/-! ## Steps in a file system -/

section Steps

variable {α β : Type} {system after : FileSystem} {action : ExceptT Error (StateM FileSystem) α}
  {next : α → ExceptT Error (StateM FileSystem) β} {result : Except Error α}

theorem run_bind : action.run.run system = (result, after) →
    (action >>= next).run.run system =
      match result with
      | .ok a => (next a).run.run after
      | .error error => (.error error, after) := by
  intro h
  rw [ExceptT.run_bind, StateT.run_bind, h]
  cases result <;> rfl

theorem run_ofExcept (result : Except Error α) (system : FileSystem) :
    (MonadExcept.ofExcept result : ExceptT Error (StateM FileSystem) α).run.run system =
      (result, system) := by
  cases result <;> rfl

end Steps

theorem run_readSource (path : String) (system : FileSystem) :
    (readSource path : ExceptT Error (StateM FileSystem) String).run.run system =
      (((system.read path).mapError (Error.input path)).map Text.decode, system) := by
  have hread : (liftM (FileAccess.read path : StateM FileSystem (Except FileError ByteArray)) :
      ExceptT Error (StateM FileSystem) _).run.run system = (.ok (system.read path), system) := rfl
  have hinput : (readInput path : ExceptT Error (StateM FileSystem) ByteArray).run.run system =
      ((system.read path).mapError (Error.input path), system) := by
    refine (run_bind hread).trans ?_
    cases system.read path <;> rfl
  refine (run_bind hinput).trans ?_
  cases system.read path <;> rfl

theorem run_write (path : String) (content : ByteArray) (system : FileSystem) :
    (liftM (FileAccess.write path content : StateM FileSystem (Except FileError Unit)) :
        ExceptT Error (StateM FileSystem) _).run.run system =
      match system.write path content with
      | .ok after => (.ok (.ok ()), after)
      | .error cause => (.ok (.error cause), system) := by
  have hlift : (liftM (FileAccess.write path content : StateM FileSystem (Except FileError Unit)) :
      ExceptT Error (StateM FileSystem) _).run.run system =
        (FileAccess.write path content >>= fun result => pure (.ok result) :
          StateM FileSystem _).run system := rfl
  rw [hlift, StateT.run_bind]
  cases h : system.write path content <;> simp [FileAccess.write, h] <;> rfl

/-! ## What an extraction does to the files -/

namespace FileSystem

inductive Refuses (system : FileSystem) (input path : String) (settings : Settings) : Error → Prop
  | input {cause : FileError} (hread : system.read input = .error cause) :
      Refuses system input path settings (.input input cause)
  | routine {content : ByteArray} {error : Error} (hread : system.read input = .ok content)
      (hsource : DecisionTable.ofSource settings.combineMode (Text.decode content) =
        .error error) :
      Refuses system input path settings error
  | output {content : ByteArray} {table : DecisionTable} {text : String} {cause : FileError}
      (hread : system.read input = .ok content)
      (hsource : DecisionTable.ofSource settings.combineMode (Text.decode content) = .ok table)
      (htext : table.write settings.format settings.comparatorStyle = .ok text)
      (hwrite : system.write path text.toUTF8 = .error cause) :
      Refuses system input path settings (.output path cause)

/-- An extraction is refused where it began, or it ends with its one write. -/
theorem extract_cases (system : FileSystem) (input : String) (output : Option String)
    (settings : Settings) :
    let path := output.getD (defaultOutput input settings.format)
    (∃ error, system.extract input output settings = (.error error, system) ∧
      system.Refuses input path settings error) ∨
    ∃ content table text after,
      system.extract input output settings = (.ok (table.summary path), after) ∧
      system.read input = .ok content ∧
      DecisionTable.ofSource settings.combineMode (Text.decode content) = .ok table ∧
      table.write settings.format settings.comparatorStyle = .ok text ∧
      system.write path text.toUTF8 = .ok after := by
  intro path
  have hrun : system.extract input output settings = _ := run_bind (run_readSource input system)
  cases hread : system.read input with
  | error cause =>
      rw [hread] at hrun
      exact .inl ⟨_, hrun, .input hread⟩
  | ok content =>
      rw [hread] at hrun
      replace hrun := hrun.trans (run_bind (run_ofExcept _ system))
      cases hsource : DecisionTable.ofSource settings.combineMode (Text.decode content) with
      | error error =>
          rw [hsource] at hrun
          exact .inl ⟨_, hrun, .routine hread hsource⟩
      | ok table =>
          rw [hsource] at hrun
          replace hrun := hrun.trans (run_bind (run_ofExcept _ system))
          obtain ⟨text, htext⟩ := table.write_eq_ok settings.format settings.comparatorStyle
          rw [htext] at hrun
          have hlast := run_write path text.toUTF8 system
          cases hwrite : system.write path text.toUTF8 with
          | error cause =>
              rw [hwrite] at hlast
              exact .inl ⟨_, hrun.trans (run_bind hlast), .output hread hsource htext hwrite⟩
          | ok after =>
              rw [hwrite] at hlast
              exact .inr ⟨content, table, text, after, hrun.trans (run_bind hlast), rfl, hsource,
                htext, hwrite⟩

end FileSystem

/-- An extraction that fails leaves every file as it was.  One that succeeds has placed the text of
the table, and nothing else, at the path of the output, and its summary counts what is in the
table; the rows are those that a reader of its CSV finds. -/
theorem extract_effects (system : FileSystem) (input : String) (output : Option String)
    (settings : Settings) :
    let path := output.getD (Path.withExtension input settings.format.extension)
    let (result, after) := system.extract input output settings
    (∀ error, result = .error error →
      after = system ∧ system.Refuses input path settings error) ∧
    ∀ summary, result = .ok summary → ∃ content table text location,
      system.read input = .ok content ∧
      DecisionTable.ofSource settings.combineMode (Text.decode content) = .ok table ∧
      table.write settings.format settings.comparatorStyle = .ok text ∧
      system.fileAt? path = some location ∧
      system.Placed location text.toUTF8 after ∧ after.read path = .ok text.toUTF8 ∧
      summary = {
        kind := table.kind
        rules := table.rules.length
        rows := (table.rules.flatMap Rule.alternatives).length
        columns := table.registry.names.length
        filterLists := table.filterLists.length
        anomalies := table.anomalies.length
        output := path } ∧
      ∃ csv records, table.write .csv settings.comparatorStyle = .ok csv ∧
        (Csv.read csv.toList).takeWhile (· ≠ []) = table.csvHeader :: records ∧
        summary.rows = records.length := by
  intro path
  rcases system.extract_cases input output settings with
    ⟨error, hrun, hrefused⟩ | ⟨content, table, text, after, hrun, hread, hsource, htext, hwrite⟩
  · rw [hrun]
    refine ⟨fun error' herror => ?_, fun summary hsummary => ?_⟩
    · cases herror
      exact ⟨rfl, hrefused⟩
    · cases hsummary
  · rw [hrun]
    refine ⟨fun error herror => ?_, fun summary hsummary => ?_⟩
    · cases herror
    · cases hsummary
      have hafter := FileSystem.read_of_write hwrite
      obtain ⟨location, hfile, rfl⟩ := FileSystem.write_eq_ok.1 hwrite
      obtain ⟨csv, hcsv⟩ := table.write_eq_ok .csv settings.comparatorStyle
      have hrows := (table.length_csvRows settings.comparatorStyle).symm
      exact ⟨content, table, text, location, hread, hsource, htext, hfile,
        system.placed_put location _, hafter, rfl, csv, _, hcsv,
        DecisionTable.records_toCsv hcsv, hrows⟩

/-- An old table is replaced by the new one; an input that is not there leaves it. -/
theorem extract_effects_of_old_table :
    let system : FileSystem := {
      workingDirectory := []
      directories := []
      files := [(["ROUTINE.acs"], "IF &DSN = 'A' THEN SET &STORCLAS = 'B'".toUTF8),
        (["ROUTINE.csv"], "old".toUTF8)] }
    (∃ text, (system.extract "ROUTINE.acs" none {}).2.read "ROUTINE.csv" = .ok text ∧
      system.Placed ["ROUTINE.csv"] text (system.extract "ROUTINE.acs" none {}).2) ∧
    (system.extract "OTHER.acs" (some "ROUTINE.csv") {}).2 = system := by
  intro system
  constructor
  · have hresult : (system.extract "ROUTINE.acs" none {}).1.toOption = some {
        kind := none, rules := 1, rows := 1, columns := 1, filterLists := 0, anomalies := 0
        output := "ROUTINE.csv" } := by
      decide +kernel
    have hfile : system.fileAt? "ROUTINE.csv" = some ["ROUTINE.csv"] := by decide +kernel
    obtain ⟨-, heffects⟩ := extract_effects system "ROUTINE.acs" none {}
    cases hrun : (system.extract "ROUTINE.acs" none {}).1 with
    | error error =>
        rw [hrun] at hresult
        cases hresult
    | ok summary =>
        obtain ⟨content, table, text, location, -, -, -, hlocation, hplaced, hread, -⟩ :=
          heffects summary hrun
        have hsame : location = ["ROUTINE.csv"] := Option.some.inj (hlocation.symm.trans hfile)
        exact ⟨text.toUTF8, hread, hsame ▸ hplaced⟩
  · have hresult : (system.extract "OTHER.acs" (some "ROUTINE.csv") {}).1.toOption = none := by
      decide +kernel
    obtain ⟨heffects, -⟩ := extract_effects system "OTHER.acs" (some "ROUTINE.csv") {}
    cases hrun : (system.extract "OTHER.acs" (some "ROUTINE.csv") {}).1 with
    | error error => exact (heffects error hrun).1
    | ok summary =>
        rw [hrun] at hresult
        cases hresult

end ClassSelection
