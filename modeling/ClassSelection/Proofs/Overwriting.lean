import ClassSelection.Proofs.Extract
import ClassSelection.Proofs.File.Path

/-!
# When the table replaces its routine

Without a path for its output, an extraction writes beside its input: into the
same directory, under the name with the extension of the format.  That is
another file, and the input keeps its content, unless the name had this
extension; then the table of a routine that compiles takes the place of the
routine (`read_input_after_extract`).
-/

namespace ClassSelection

open ClassSelection.Path (IsParent IsName HasExtension)

namespace FileSystem

variable {system : FileSystem} {directory location : Location} {parent name other : List Char}
  {path : String} {content : ByteArray}

/-! ## Paths with the same parent -/

theorem pieces_ne_nil (path : List Char) : pieces path ≠ [] := by
  unfold pieces
  split
  · simp
  · simp
  · split <;> simp

theorem pieces_append_slash (up rest : List Char) :
    pieces (up ++ '/' :: rest) = pieces up ++ pieces rest := by
  induction up with
  | nil => rfl
  | cons c up ih =>
      by_cases hc : c = '/'
      · subst hc
        rw [List.cons_append, pieces, pieces, ih, List.cons_append]
      · rw [List.cons_append, pieces.eq_3 c _ hc, pieces.eq_3 c _ hc, ih]
        obtain ⟨first, others, hup⟩ := List.exists_cons_of_ne_nil (pieces_ne_nil up)
        rw [hup]
        rfl

theorem pieces_name (hname : '/' ∉ name) : pieces name = [name] := by
  induction name with
  | nil => rfl
  | cons c name ih =>
      simp only [List.mem_cons, not_or] at hname
      rw [pieces.eq_3 c name (Ne.symm hname.1), ih hname.2]

/-- What stands before the last piece of a path. -/
theorem exists_way (hparent : IsParent parent) :
    ∃ way, ∀ name, '/' ∉ name → pieces (parent ++ name) = way ++ [name] := by
  rcases hparent with rfl | ⟨up, rfl⟩
  · exact ⟨[], fun name hname => pieces_name hname⟩
  · refine ⟨pieces up, fun name hname => ?_⟩
    rw [List.append_assoc, List.singleton_append, pieces_append_slash, pieces_name hname]

/-- If a way with a last piece leads anywhere, all before that piece is directories. -/
theorem exists_inner {way : List (List Char)} {target : Target}
    (h : system.follow directory (way ++ [name]) = .ok target) :
    ∃ inner, ∀ other, system.follow directory (way ++ [other]) = system.follow inner [other] := by
  induction way generalizing directory with
  | nil => exact ⟨directory, fun other => rfl⟩
  | cons piece way ih =>
      rw [List.cons_append] at h
      rcases enters_or_names h with ⟨next, hnext⟩ | ⟨hlast, -⟩
      · rw [follow_of_enters hnext] at h
        obtain ⟨inner, hinner⟩ := ih h
        exact ⟨inner, fun other => by rw [List.cons_append, follow_of_enters hnext, hinner]⟩
      · simp at hlast

theorem origin_append (system : FileSystem) (parent : List Char) (hname : '/' ∉ name)
    (hother : '/' ∉ other) :
    system.origin (String.ofList (parent ++ name)) =
      system.origin (String.ofList (parent ++ other)) := by
  have hhead (name : List Char) (hname : '/' ∉ name) : (name.head? == some '/') = false := by
    rw [beq_eq_false_iff_ne]
    exact fun h => hname (List.mem_of_head? h)
  rw [origin, origin, String.toList_ofList, String.toList_ofList]
  cases parent with
  | nil => rw [List.nil_append, List.nil_append, hhead name hname, hhead other hother]
  | cons c parent => rfl

theorem eq_of_pathPieces {found : List (List Char)} (h : pathPieces path = .ok found) :
    found = pieces path.toList := by
  unfold pathPieces at h
  split_ifs at h
  exact (Except.ok.inj h).symm

theorem resolve_eq_ok {target : Target} (h : system.resolve path = .ok target) :
    system.follow (system.origin path) (pieces path.toList) = .ok target := by
  unfold resolve at h
  cases hpieces : pathPieces path with
  | error cause =>
      rw [hpieces] at h
      cases h
  | ok found =>
      rw [hpieces, eq_of_pathPieces hpieces] at h
      exact h

theorem resolveForWriting_eq (hparent : IsParent parent) (hname : '/' ∉ name) (hne : name ≠ []) :
    system.resolveForWriting (String.ofList (parent ++ name)) =
      system.resolve (String.ofList (parent ++ name)) := by
  unfold resolveForWriting resolve
  cases hpieces : pathPieces (String.ofList (parent ++ name)) with
  | error cause => rfl
  | ok found =>
      obtain ⟨way, hway⟩ := exists_way hparent
      have hfound := eq_of_pathPieces hpieces
      rw [String.toList_ofList, hway name hname] at hfound
      simp only [bind, Except.bind, hfound, List.reverse_append, List.reverse_singleton,
        List.singleton_append]
      split
      · rename_i h
        exact absurd (List.cons.inj h).1 hne
      · rfl

/-- A file at a path has its name in a directory, and other names behind the same parent lead into
this directory. -/
theorem exists_of_resolve (h : system.resolve path = .ok (.file location)) :
    ∃ parent name inner, path = String.ofList (parent ++ name) ∧ IsParent parent ∧ IsName name ∧
      location = inner ++ [String.ofList name] ∧
      ∀ other target, '/' ∉ other → system.resolve (String.ofList (parent ++ other)) = .ok target →
        system.follow inner [other] = .ok target := by
  obtain ⟨parent, name, hpath, hparent, hname⟩ := Path.exists_parent path.toList
  obtain rfl : path = String.ofList (parent ++ name) := by rw [← hpath, String.ofList_toList]
  obtain ⟨way, hway⟩ := exists_way hparent
  have hfollow := resolve_eq_ok h
  rw [hpath, hway name hname] at hfollow
  obtain ⟨inner, hinner⟩ := exists_inner hfollow
  rw [hinner] at hfollow
  obtain ⟨⟨hlookedUp, -, -⟩, hlocation⟩ := location?_of_follow_name hfollow rfl
  refine ⟨parent, name, inner, rfl, hparent,
    ⟨hname, hlookedUp.ne_nil, hlookedUp.ne_dot, hlookedUp.ne_dots⟩, hlocation, ?_⟩
  intro other target hother hresolve
  have hfollow := resolve_eq_ok hresolve
  rw [String.toList_ofList, hway other hother, origin_append system parent hother hname,
    hinner] at hfollow
  exact hfollow

/-! ## Reading after a write -/

theorem follow_put_file {way : List (List Char)} (written : Location)
    (h : system.follow directory way = .ok (.file location)) :
    (system.put written content).follow directory way = .ok (.file location) := by
  induction way generalizing directory with
  | nil => cases h
  | cons piece others ih =>
      rcases enters_or_names h with ⟨inner, hinner⟩ | ⟨rfl, hname⟩
      · rw [follow_of_enters hinner] at h
        rw [follow_of_enters (hinner.put written)]
        exact ih h
      · obtain ⟨-, rfl⟩ := location?_of_follow_name h rfl
        rw [follow_of_names hname] at h
        rw [follow_of_names (hname.put written), content?_put]
        by_cases hcontent : (system.content? (directory ++ [String.ofList piece])).isSome
        · by_cases hwritten : directory ++ [String.ofList piece] = written
          · rw [if_pos hwritten]
            rfl
          · rw [if_neg hwritten, if_pos hcontent]
        · rw [if_neg hcontent] at h
          cases h

theorem resolve_put_file (written : Location) (h : system.resolve path = .ok (.file location)) :
    (system.put written content).resolve path = .ok (.file location) := by
  have hfollow := resolve_eq_ok h
  unfold resolve at h ⊢
  cases hpieces : pathPieces path with
  | error cause =>
      rw [hpieces] at h
      cases h
  | ok found =>
      rw [eq_of_pathPieces hpieces]
      exact follow_put_file written hfollow

theorem exists_file_of_read (h : system.read path = .ok content) :
    ∃ location, system.resolve path = .ok (.file location) := by
  unfold read at h
  cases hresolve : system.resolve path with
  | error cause =>
      rw [hresolve] at h
      cases h
  | ok target =>
      rw [hresolve] at h
      cases target with
      | directory => cases h
      | file location => exact ⟨location, rfl⟩
      | free location => cases h

theorem read_of_resolve (h : system.resolve path = .ok (.file location)) :
    system.read path = .ok ((system.content? location).getD .empty) := by
  rw [read, h]
  rfl

theorem read_put_of_ne {written : Location} {text : ByteArray}
    (h : system.resolve path = .ok (.file location)) (hne : location ≠ written) :
    (system.put written text).read path = system.read path := by
  rw [read_of_resolve (resolve_put_file written h), read_of_resolve h, content?_put, if_neg hne]

end FileSystem

/-! ## The default output -/

theorem OutputFormat.plain_extension (format : OutputFormat) :
    '.' ∉ format.extension.toList ∧ '/' ∉ format.extension.toList := by
  cases format <;> decide

namespace FileSystem

variable {system : FileSystem} {location : Location} {input : String} {content : ByteArray}

theorem defaultOutput_eq_iff (h : system.resolve input = .ok (.file location))
    (format : OutputFormat) :
    defaultOutput input format = input ↔ HasExtension input format.extension := by
  obtain ⟨hdot, hslash⟩ := format.plain_extension
  obtain ⟨parent, name, inner, rfl, hparent, hname, -⟩ := exists_of_resolve h
  exact Path.withExtension_eq_iff hparent hname hdot hslash

theorem fileAt?_of_resolve (h : system.resolve input = .ok (.file location)) :
    system.fileAt? input = some location := by
  obtain ⟨parent, name, inner, rfl, hparent, hname, -⟩ := exists_of_resolve h
  rw [fileAt?, resolveForWriting_eq hparent hname.noSlash hname.ne_nil, h]
  rfl

/-- The default output is the file of the input only under the path of the input. -/
theorem fileAt?_defaultOutput_iff (h : system.resolve input = .ok (.file location))
    (format : OutputFormat) :
    system.fileAt? (defaultOutput input format) = some location ↔
      HasExtension input format.extension := by
  rw [← defaultOutput_eq_iff h]
  refine ⟨fun hfile => ?_, fun hsame => by rw [hsame, fileAt?_of_resolve h]⟩
  obtain ⟨parent, name, inner, rfl, hparent, hname, rfl, hsibling⟩ := exists_of_resolve h
  have hrenamed := Path.noSlash_renamed hname.noSlash format.plain_extension.2
  rw [defaultOutput, Path.withExtension_append hparent hname] at hfile ⊢
  rw [fileAt?, resolveForWriting_eq hparent hrenamed (Path.renamed_ne_nil name _)] at hfile
  obtain ⟨target, htarget, hlocation⟩ := Option.bind_eq_some_iff.1 hfile
  have hresolve : system.resolve
      (String.ofList (parent ++ Path.renamed name format.extension.toList)) = .ok target := by
    cases htarget' : system.resolve _ <;> simp_all [Except.toOption]
  have hlast := (location?_of_follow_name (hsibling _ target hrenamed hresolve) hlocation).2
  have hsame : name = Path.renamed name format.extension.toList :=
    String.ofList_inj.1 (by simpa using hlast)
  rw [← hsame]

theorem not_refuses {settings : Settings} {table : DecisionTable} {error : Error}
    (h : system.resolve input = .ok (.file location)) (hread : system.read input = .ok content)
    (hsource : DecisionTable.ofSource settings.combineMode (Text.decode content) = .ok table) :
    ¬system.Refuses input input settings error := by
  rintro (⟨hread'⟩ | ⟨hread', hsource'⟩ | ⟨-, -, -, hwrite⟩)
  · rw [hread] at hread'
    cases hread'
  · obtain rfl := Except.ok.inj (hread.symm.trans hread')
    rw [hsource] at hsource'
    cases hsource'
  · rw [write_eq_ok.2 ⟨location, fileAt?_of_resolve h, rfl⟩] at hwrite
    cases hwrite

end FileSystem

/-- An extraction to the default output leaves its input as it was, unless the name of the input has
the extension of the format.  Then the output is the input, and a routine that compiles is replaced
by its table. -/
theorem read_input_after_extract {system : FileSystem} {input : String} {content : ByteArray}
    (hread : system.read input = .ok content) (settings : Settings) :
    let run := system.extract input none settings
    (∃ location, system.resolve input = .ok (.file location) ∧
      (system.fileAt? (defaultOutput input settings.format) = some location ↔
        HasExtension input settings.format.extension)) ∧
    (∀ error, run.1 = .error error → run.2.read input = .ok content) ∧
    (¬HasExtension input settings.format.extension → run.2.read input = .ok content) ∧
    (HasExtension input settings.format.extension →
      ∀ table, DecisionTable.ofSource settings.combineMode (Text.decode content) = .ok table →
        ∃ text, table.write settings.format settings.comparatorStyle = .ok text ∧
          run.1 = .ok (table.summary input) ∧ run.2.read input = .ok text.toUTF8) := by
  intro run
  obtain ⟨location, hresolve⟩ := FileSystem.exists_file_of_read hread
  have hdefault := FileSystem.fileAt?_defaultOutput_iff hresolve settings.format
  have hsame := FileSystem.defaultOutput_eq_iff hresolve settings.format
  have hcases := system.extract_cases input none settings
  rw [Option.getD_none] at hcases
  rcases hcases with
    ⟨error, hrun, hrefused⟩ | ⟨content', table, text, after, hrun, hread', hsource, htext, hwrite⟩
  · rw [show run = _ from hrun]
    refine ⟨⟨location, hresolve, hdefault⟩, fun _ _ => hread, fun _ => hread,
      fun hextension table hsource => ?_⟩
    rw [hsame.2 hextension] at hrefused
    exact absurd hrefused (FileSystem.not_refuses hresolve hread hsource)
  · obtain rfl : content = content' := Except.ok.inj (hread.symm.trans hread')
    rw [show run = _ from hrun]
    refine ⟨⟨location, hresolve, hdefault⟩, nofun, fun hextension => ?_,
      fun hextension table' hsource' => ?_⟩
    · obtain ⟨written, hfile, rfl⟩ := FileSystem.write_eq_ok.1 hwrite
      have hne : location ≠ written := by
        rintro rfl
        exact hextension (hdefault.1 hfile)
      rw [FileSystem.read_put_of_ne hresolve hne, hread]
    · obtain rfl : table = table' := Except.ok.inj (hsource.symm.trans hsource')
      rw [hsame.2 hextension] at hwrite ⊢
      exact ⟨text, htext, rfl, FileSystem.read_of_write hwrite⟩

/-- A routine that is kept under the name of a CSV file is lost to its table, and stays beside a
table in JSON. -/
theorem read_input_after_extract_of_csv :
    let source := "IF &DSN = 'A' THEN SET &STORCLAS = 'B'"
    let text := ",&DSN,Seq,Exit,LineNum\n'B','A',1,N,1\n\nFILTLISTS\nNAME,INCLUDE,EXCLUDE\n"
    let system : FileSystem := {
      workingDirectory := []
      directories := []
      files := [(["ROUTINE.csv"], source.toUTF8)] }
    system.read "ROUTINE.csv" = .ok source.toUTF8 ∧
    (system.extract "ROUTINE.csv" none {}).2.read "ROUTINE.csv" = .ok text.toUTF8 ∧
    (system.extract "ROUTINE.csv" none { format := .json }).2.read "ROUTINE.csv" =
      .ok source.toUTF8 := by
  intro source text system
  have hread : system.read "ROUTINE.csv" = .ok source.toUTF8 := rfl
  have hcsv : HasExtension "ROUTINE.csv" "csv" :=
    ⟨[], "ROUTINE".toList, by decide, .inl rfl, by decide, by decide, by decide⟩
  have hjson : ¬HasExtension "ROUTINE.csv" "json" := by
    rintro ⟨parent, stem, hpath, -⟩
    have hlast := congrArg List.getLast? hpath
    simp at hlast
  have hwritten : ((DecisionTable.ofSource .merge (Text.decode source.toUTF8)).toOption.bind
      fun table => (table.write .csv .mnemonic).toOption) = some text := by
    decide +kernel
  refine ⟨hread, ?_, (read_input_after_extract hread { format := .json }).2.2.1 hjson⟩
  cases hsource : DecisionTable.ofSource .merge (Text.decode source.toUTF8) with
  | error error =>
      rw [hsource] at hwritten
      cases hwritten
  | ok table =>
      obtain ⟨text', htext, -, hafter⟩ :=
        (read_input_after_extract hread {}).2.2.2 hcsv table hsource
      have htable : table.write .csv .mnemonic = .ok text' := htext
      rw [hsource] at hwritten
      have hsame : text' = text := by simpa [htable, Except.toOption] using hwritten
      rw [hafter, hsame]

end ClassSelection
