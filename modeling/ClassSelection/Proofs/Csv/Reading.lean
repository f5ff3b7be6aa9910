import ClassSelection.Csv.Record

/-!
# Reading CSV

A reader for texts of records: fields stand between commas, a field may be in
quotes, where a quote is doubled, and a line ends at a line break outside
quotes.  `read_record` says that it takes back what a dialect writes, as long as
the dialect quotes every character that the reader does not take as it is.
-/

namespace ClassSelection.Csv

def isLineBreak (c : Char) : Bool :=
  c == '\n' || c == '\r'

inductive Place where
  /-- Before its first character. -/
  | start
  /-- Outside quotes. -/
  | plain
  /-- Inside quotes. -/
  | quoted
  /-- After a quote that closes the field, unless another one follows. -/
  | closed
  deriving DecidableEq, Repr

/-- The record of a line that ends in its last field; a line without a character has no fields. -/
def lineEnd (place : Place) (fields : List String) (field : List Char) : List String :=
  if place = .start ∧ fields = [] then [] else fields ++ [String.ofList field]

def readFrom (place : Place) (fields : List String) (field : List Char) :
    List Char → List (List String)
  | [] => if place = .start ∧ fields = [] then [] else [lineEnd place fields field]
  | c :: rest =>
    if place = .quoted then
      if c = '"' then readFrom .closed fields field rest
      else readFrom .quoted fields (field ++ [c]) rest
    else if c = ',' then readFrom .start (fields ++ [String.ofList field]) [] rest
    else if isLineBreak c then lineEnd place fields field :: readFrom .start [] [] rest
    else if c = '"' ∧ place = .start then readFrom .quoted fields field rest
    else if c = '"' ∧ place = .closed then readFrom .quoted fields (field ++ [c]) rest
    else readFrom .plain fields (field ++ [c]) rest

/-- The records of a text, one for each line; that of a blank line is empty. -/
def read (text : List Char) : List (List String) :=
  readFrom .start [] [] text

def isPlain (c : Char) : Bool :=
  c != ',' && c != '"' && !isLineBreak c

/-- Every character that has a meaning to the reader is quoted. -/
def Dialect.Protects (dialect : Dialect) : Prop :=
  ∀ c, isPlain c = false → dialect.isSpecial c = true

theorem Dialect.protects_of_terminator {dialect : Dialect} (h : dialect.terminator = '\n') :
    dialect.Protects := by
  intro c hc
  by_cases hcomma : c = ','
  · simp [Dialect.isSpecial, hcomma]
  by_cases hquote : c = '"'
  · simp [Dialect.isSpecial, hquote]
  have hbreak : isLineBreak c = true := by simpa [isPlain, hcomma, hquote] using hc
  simpa [Dialect.isSpecial, h, hcomma, hquote, isLineBreak] using hbreak

/-! ## Fields -/

variable {place : Place} {fields : List String} {rest : List Char}

theorem readFrom_plain {text : List Char} (htext : ∀ c ∈ text, isPlain c = true)
    (hplace : place ≠ .quoted) (field : List Char) :
    ∃ after, after ≠ .quoted ∧ (after = .start → place = .start ∧ text = []) ∧
      readFrom place fields field (text ++ rest) = readFrom after fields (field ++ text) rest := by
  induction text generalizing place field with
  | nil => exact ⟨place, hplace, fun h => ⟨h, rfl⟩, by simp⟩
  | cons c text ih =>
      have hc := htext c List.mem_cons_self
      simp only [isPlain, Bool.and_eq_true, bne_iff_ne, ne_eq, Bool.not_eq_true'] at hc
      have hplain : Place.plain ≠ .quoted := by simp
      obtain ⟨after, hafter, hstart, hread⟩ :=
        ih (fun d hd => htext d (List.mem_cons_of_mem c hd)) hplain (field ++ [c])
      refine ⟨after, hafter, fun h => by simpa using (hstart h).1, ?_⟩
      rw [List.cons_append, readFrom]
      simpa [hplace, hc] using hread

theorem readFrom_doubleQuotes (text field : List Char) :
    readFrom .quoted fields field (doubleQuotes text ++ '"' :: rest) =
      readFrom .closed fields (field ++ text) rest := by
  induction text generalizing field with
  | nil => simp [doubleQuotes, readFrom]
  | cons c text ih =>
      rw [doubleQuotes, List.flatMap_cons, List.append_assoc, ← doubleQuotes]
      by_cases hc : c = '"'
      · subst hc
        simpa [readFrom, isLineBreak] using ih (field ++ ['"'])
      · simpa [readFrom, hc] using ih (field ++ [c])

/-- A field is read back; the reader is still before it only if there is nothing of it. -/
theorem readFrom_field {dialect : Dialect} (h : dialect.Protects) (text : String)
    (fields : List String) (rest : List Char) :
    ∃ place, place ≠ .quoted ∧ (place = .start → dialect.field text = []) ∧
      readFrom .start fields [] (dialect.field text ++ rest) =
        readFrom place fields text.toList rest := by
  unfold Dialect.field
  split
  · refine ⟨.closed, by simp, by simp, ?_⟩
    simpa [quote, readFrom, isLineBreak] using readFrom_doubleQuotes text.toList []
  · rename_i hspecial
    simp only [Bool.or_eq_true, List.any_eq_true, not_or, not_exists, not_and] at hspecial
    have hplain : ∀ c ∈ text.toList, isPlain c = true := by
      intro c hc
      simpa using mt (h c) (hspecial.2 c hc)
    have hstart : Place.start ≠ .quoted := by simp
    obtain ⟨place, hplace, hempty, hread⟩ := readFrom_plain hplain hstart []
    exact ⟨place, hplace, fun h => (hempty h).2, hread⟩

/-! ## Records -/

theorem readFrom_comma (hplace : place ≠ .quoted) (field : List Char) :
    readFrom place fields field (',' :: rest) =
      readFrom .start (fields ++ [String.ofList field]) [] rest := by
  rw [readFrom, if_neg hplace, if_pos rfl]

theorem readFrom_lineBreak {c : Char} (hplace : place ≠ .quoted) (hc : isLineBreak c = true)
    (field : List Char) :
    readFrom place fields field (c :: rest) = lineEnd place fields field :: read rest := by
  have hcomma : c ≠ ',' := by
    rintro rfl
    cases hc
  rw [readFrom, if_neg hplace, if_neg hcomma, if_pos hc, read]

theorem read_lineBreak {c : Char} (hc : isLineBreak c = true) :
    read (c :: rest) = [] :: read rest :=
  readFrom_lineBreak (by simp) hc []

theorem readFrom_fields {dialect : Dialect} (h : dialect.Protects) {c : Char}
    (hc : isLineBreak c = true) {others : List String} (hothers : others ≠ [])
    (hblank : fields = [] → dialect.fields others ≠ []) :
    readFrom .start fields [] (dialect.fields others ++ c :: rest) =
      (fields ++ others) :: read rest := by
  induction others generalizing fields with
  | nil => exact absurd rfl hothers
  | cons first others ih =>
      cases others with
      | nil =>
          obtain ⟨place, hplace, hstart, hread⟩ := readFrom_field h first fields (c :: rest)
          have hline : ¬(place = .start ∧ fields = []) := fun ⟨hplace, hfields⟩ =>
            hblank hfields (hstart hplace)
          rw [Dialect.fields, hread, readFrom_lineBreak hplace hc, lineEnd, if_neg hline,
            String.ofList_toList]
      | cons second others =>
          obtain ⟨place, hplace, -, hread⟩ := readFrom_field h first fields
            (',' :: (dialect.fields (second :: others) ++ c :: rest))
          rw [Dialect.fields, List.append_assoc, List.cons_append, hread, readFrom_comma hplace,
            ih (by simp) (by simp), String.ofList_toList, List.append_assoc, List.singleton_append]
          simp

theorem Dialect.eq_of_fields_eq_nil {dialect : Dialect} {fields : List String}
    (hfields : fields ≠ []) (h : dialect.fields fields = []) : fields = [""] := by
  match fields with
  | [] => exact absurd rfl hfields
  | [last] =>
      rw [Dialect.fields, Dialect.field] at h
      split at h
      · simp [quote] at h
      · simpa using h
  | first :: second :: others => simp [Dialect.fields] at h

/-- A record is one line of the text, and is read back. -/
theorem read_record {dialect : Dialect} (h : dialect.terminator = '\n') {fields : List String}
    (hfields : fields ≠ []) (rest : List Char) :
    read (dialect.record fields ++ rest) = fields :: read rest := by
  have hprotects := Dialect.protects_of_terminator h
  have hbreak : isLineBreak dialect.terminator = true := by rw [h]; rfl
  unfold Dialect.record
  dsimp only
  split
  · rename_i hempty
    obtain rfl := Dialect.eq_of_fields_eq_nil hfields (by simpa using hempty)
    have hquotes : readFrom .start [] [] ('"' :: '"' :: dialect.terminator :: rest) =
        readFrom .closed [] [] (dialect.terminator :: rest) := rfl
    exact hquotes.trans (readFrom_lineBreak (by simp) hbreak [])
  · rename_i hempty
    rw [List.append_assoc, List.singleton_append, read,
      readFrom_fields hprotects hbreak hfields fun _ => by simpa using hempty, List.nil_append]

theorem read_records {dialect : Dialect} (h : dialect.terminator = '\n')
    {records : List (List String)} (hrecords : ∀ fields ∈ records, fields ≠ [])
    (rest : List Char) :
    read (records.flatMap dialect.record ++ rest) = records ++ read rest := by
  induction records with
  | nil => rfl
  | cons fields records ih =>
      rw [List.flatMap_cons, List.append_assoc, read_record h (hrecords fields List.mem_cons_self),
        ih fun other hother => hrecords other (List.mem_cons_of_mem fields hother),
        List.cons_append]

theorem Dialect.records_eq_ok (dialect : Dialect) {width : Nat} {records : List (List String)}
    (h : ∀ fields ∈ records, fields.length = width) :
    dialect.records width records = .ok (records.flatMap dialect.record) := by
  induction records with
  | nil => rfl
  | cons fields records ih =>
      have hothers := ih fun other hother => h other (List.mem_cons_of_mem fields hother)
      rw [Dialect.records, if_pos (h fields List.mem_cons_self), hothers]
      rfl

/-! ## Text that is not in quotes -/

def lineRecord (line : List Char) : List String :=
  if line = [] then [] else [String.ofList line]

theorem lineEnd_eq_lineRecord {field : List Char} (h : place = .start ↔ field = []) :
    lineEnd place [] field = lineRecord field := by
  simp [lineEnd, lineRecord, h]

/-- Each line break in a text without quotes and commas ends a record; the last line of the text is
the field that the reader goes on with. -/
theorem readFrom_lines {text field : List Char} (htext : ∀ c ∈ text, c ≠ ',' ∧ c ≠ '"')
    (hfield : ∀ c ∈ field, isLineBreak c = false) (hplace : place ≠ .quoted)
    (hstart : place = .start ↔ field = []) :
    ∃ after, after ≠ .quoted ∧
      readFrom place [] field (text ++ rest) =
        ((field ++ text).splitOnP isLineBreak).dropLast.map lineRecord ++
          readFrom after [] (((field ++ text).splitOnP isLineBreak).getLastD []) rest := by
  induction text generalizing place field with
  | nil =>
      refine ⟨place, hplace, ?_⟩
      rw [List.append_nil, List.splitOnP_eq_singleton hfield]
      rfl
  | cons c text ih =>
      obtain ⟨hcomma, hquote⟩ := htext c List.mem_cons_self
      have hothers : ∀ d ∈ text, d ≠ ',' ∧ d ≠ '"' := fun d hd =>
        htext d (List.mem_cons_of_mem c hd)
      by_cases hc : isLineBreak c = true
      · have hnew : Place.start = .start ↔ ([] : List Char) = [] := by simp
        obtain ⟨after, hafter, hread⟩ := ih hothers (by simp) (by simp) hnew
        refine ⟨after, hafter, ?_⟩
        have hsplit : (field ++ c :: text).splitOnP isLineBreak =
            field :: text.splitOnP isLineBreak := by
          rw [List.splitOnP_append_cons _ _ hc, List.splitOnP_eq_singleton hfield,
            List.singleton_append]
        obtain ⟨line, lines, hlines⟩ := List.exists_cons_of_ne_nil
          (List.splitOnP_ne_nil isLineBreak text)
        rw [List.nil_append, hlines] at hread
        rw [List.cons_append, readFrom_lineBreak hplace hc, lineEnd_eq_lineRecord hstart, read,
          hread, hsplit, hlines]
        rfl
      · have hlonger : ∀ d ∈ field ++ [c], isLineBreak d = false := by
          simpa [or_imp, forall_and] using ⟨hfield, by simpa using hc⟩
        have hplain : Place.plain = .start ↔ field ++ [c] = [] := by simp
        obtain ⟨after, hafter, hread⟩ := ih hothers hlonger (by simp) hplain
        refine ⟨after, hafter, ?_⟩
        rw [List.append_assoc, List.singleton_append] at hread
        rw [List.cons_append, readFrom, if_neg hplace, if_neg hcomma, if_neg hc,
          if_neg fun h => hquote h.1, if_neg fun h => hquote h.1, hread]

end ClassSelection.Csv
