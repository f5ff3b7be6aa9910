import ClassSelection.Proofs.Condition.WellFormed
import ClassSelection.Table.Format

/-!
# Reading cells

A cell joins its tests with `; ` and puts no value in quotes of its own.  It is
taken apart again at the semicolons and blanks outside the quotes of literals:
in the text of a token no separator stands there, so `read_cell` gives the tests
back, in either style.
-/

namespace ClassSelection.Cell

/-- The pieces of a text between marks, where a mark inside quotes does not count. -/
def pieces (mark : Char) (quoted : Bool) : List Char → List (List Char)
  | [] => [[]]
  | c :: rest =>
    if c = mark ∧ quoted = false then [] :: pieces mark false rest
    else (pieces mark (if c = '\'' then !quoted else quoted) rest).modifyHead (c :: ·)

def Whole (mark : Char) : Bool → List Char → Prop
  | quoted, [] => quoted = false
  | quoted, c :: rest =>
    (quoted = false → c ≠ mark) ∧ Whole mark (if c = '\'' then !quoted else quoted) rest

/-- The test on a subject that a piece of a cell shows: a value, or a comparator and a value. -/
def testOf? (subject : String) (piece : List Char) : Option Test :=
  match (pieces ' ' false piece).filter (· ≠ []) with
  | [value] => some ⟨subject, .eq, String.ofList value⟩
  | [spelling, value] =>
    (Comparator.ofSpelling? (String.ofList spelling)).map fun comparator =>
      ⟨subject, comparator, String.ofList value⟩
  | _ => none

def read (subject : String) (cell : String) : List Test :=
  (pieces ';' false cell.toList).filterMap (testOf? subject)

/-! ## Whole texts -/

variable {mark : Char} {quoted : Bool} {text rest : List Char}

theorem Whole.append (h : Whole mark quoted text) (hrest : Whole mark false rest) :
    Whole mark quoted (text ++ rest) := by
  induction text generalizing quoted with
  | nil =>
      obtain rfl : quoted = false := h
      exact hrest
  | cons c text ih => exact ⟨h.1, ih h.2⟩

theorem whole_of_forall (h : ∀ c ∈ text, c ≠ '\'' ∧ c ≠ mark) : Whole mark false text := by
  induction text with
  | nil => rfl
  | cons c text ih =>
      obtain ⟨hquote, hmark⟩ := h c List.mem_cons_self
      refine ⟨fun _ => hmark, ?_⟩
      rw [if_neg hquote]
      exact ih fun d hd => h d (List.mem_cons_of_mem c hd)

theorem whole_quoted (hmark : mark ≠ '\'') (h : ∀ c ∈ text, c ≠ '\'') :
    Whole mark false ('\'' :: (text ++ ['\''])) := by
  have hbody : Whole mark true (text ++ ['\'']) := by
    induction text with
    | nil => exact ⟨nofun, rfl⟩
    | cons c text ih =>
        refine ⟨nofun, ?_⟩
        rw [if_neg (h c List.mem_cons_self)]
        exact ih fun d hd => h d (List.mem_cons_of_mem c hd)
  exact ⟨fun _ => hmark.symm, hbody⟩

theorem pieces_of_whole (h : Whole mark quoted text) : pieces mark quoted text = [text] := by
  induction text generalizing quoted with
  | nil => rfl
  | cons c text ih =>
      rw [pieces, if_neg fun hc => h.1 hc.2 hc.1, ih h.2]
      rfl

theorem pieces_append (h : Whole mark quoted text) (rest : List Char) :
    pieces mark quoted (text ++ mark :: rest) = text :: pieces mark false rest := by
  induction text generalizing quoted with
  | nil =>
      obtain rfl : quoted = false := h
      rw [List.nil_append, pieces, if_pos ⟨rfl, rfl⟩]
  | cons c text ih =>
      rw [List.cons_append, pieces, if_neg fun hc => h.1 hc.2 hc.1, ih h.2]
      rfl

/-! ## Values -/

theorem whole_token (hmark : Token.isSeparator mark = true) {token : Token}
    (htoken : token.Canonical) : Whole mark false token.text.toList := by
  cases token with
  | word text =>
      refine whole_of_forall fun c hc => ?_
      have hword := htoken.2.1 c hc
      have hc := Token.isSeparator_of_isWordChar hword
      refine ⟨?_, ?_⟩
      · rintro rfl
        cases hword
      · rintro rfl
        rw [hmark] at hc
        cases hc
  | literal text =>
      have hquote : mark ≠ '\'' := by
        rintro rfl
        cases hmark
      have hbody : ∀ c ∈ text.toList, c ≠ '\'' := by
        rintro c hc rfl
        cases htoken _ hc
      simpa [Token.text] using whole_quoted hquote hbody
  | punct symbol =>
      have hsymbol : symbol ≠ mark := by
        rintro rfl
        rw [htoken.1] at hmark
        cases hmark
      refine whole_of_forall fun c hc => ?_
      obtain rfl : c = symbol := by simpa [Token.text] using hc
      exact ⟨htoken.2.2, hsymbol⟩
  | endOfSource => exact htoken.elim

theorem whole_value (hmark : Token.isSeparator mark = true) {value : String} (h : Written value) :
    Whole mark false value.toList := by
  have hparenthesis {c : Char} (hquote : c ≠ '\'') (hc : Token.isSeparator c = false) :
      Whole mark false [c] := by
    refine whole_of_forall fun d hd => ?_
    obtain rfl := List.mem_singleton.1 hd
    refine ⟨hquote, ?_⟩
    rintro rfl
    rw [hmark] at hc
    cases hc
  cases h with
  | token htoken => exact whole_token hmark htoken
  | qualified hname _ hqualifier =>
      have hleft := (whole_token hmark hname).append (hparenthesis (c := '(') (by decide) rfl)
      have hright := (whole_token hmark hqualifier).append (hparenthesis (c := ')') (by decide) rfl)
      simpa [String.toList_append] using hleft.append hright

/-! ## Tests -/

theorem whole_blank : Whole ';' false [' '] :=
  ⟨fun _ => by decide, rfl⟩

theorem spell_eq (style : ComparatorStyle) (comparator : Comparator) :
    (style.spell comparator).toList.all (fun c => c != '\'' && !Token.isSeparator c) = true ∧
      style.spell comparator ≠ "" ∧
      Comparator.ofSpelling? (style.spell comparator) = some comparator := by
  cases style <;> cases comparator <;> decide

theorem whole_spell (hmark : Token.isSeparator mark = true) (style : ComparatorStyle)
    (comparator : Comparator) : Whole mark false (style.spell comparator).toList := by
  refine whole_of_forall fun c hc => ?_
  have hchar := List.all_eq_true.1 (spell_eq style comparator).1 c hc
  refine ⟨by simpa using (Bool.and_eq_true_iff.1 hchar).1, ?_⟩
  rintro rfl
  simp [hmark] at hchar

theorem toList_testText {test : Test} (style : ComparatorStyle) (h : test.comparator ≠ .eq) :
    (style.testText test).toList =
      (style.spell test.comparator).toList ++ ' ' :: test.value.toList := by
  rw [ComparatorStyle.testText, if_neg (by simpa using h)]
  simp [String.toList_append]

theorem testText_of_eq {test : Test} (style : ComparatorStyle) (h : test.comparator = .eq) :
    style.testText test = test.value := by
  rw [ComparatorStyle.testText, if_pos (by simpa using h)]

theorem testOf?_testText {test : Test} (style : ComparatorStyle) (h : Written test.value) :
    testOf? test.subject (style.testText test).toList = some test := by
  obtain ⟨subject, comparator, value⟩ := test
  have hvalue : pieces ' ' false value.toList = [value.toList] :=
    pieces_of_whole (whole_value rfl h)
  have hne : value.toList ≠ [] := by simpa using h.ne_empty
  by_cases heq : comparator = .eq
  · subst heq
    rw [testText_of_eq style rfl, testOf?, hvalue]
    simp [hne]
  · obtain ⟨-, hspelling, hcomparator⟩ := spell_eq style comparator
    have hspellingNe : (style.spell comparator).toList ≠ [] := by simpa using hspelling
    rw [toList_testText style heq, testOf?, pieces_append (whole_spell rfl style comparator),
      hvalue]
    simp [hne, hspellingNe, hcomparator]

theorem testOf?_space (subject : String) (text : List Char) :
    testOf? subject (' ' :: text) = testOf? subject text := by
  have hpieces : pieces ' ' false (' ' :: text) = [] :: pieces ' ' false text := by
    rw [pieces, if_pos ⟨rfl, rfl⟩]
  simp [testOf?, hpieces]

theorem whole_testText {test : Test} (style : ComparatorStyle) (h : Written test.value) :
    Whole ';' false (style.testText test).toList := by
  have hvalue : Whole ';' false test.value.toList := whole_value rfl h
  by_cases heq : test.comparator = .eq
  · rwa [testText_of_eq style heq]
  · rw [toList_testText style heq]
    exact (whole_spell rfl style test.comparator).append (whole_blank.append hvalue)

/-! ## Cells -/

/-- A cell falls into the texts of its tests, with the blanks after the semicolons. -/
theorem pieces_intercalate {lead : List Char} {first : String} {others : List String}
    (hlead : Whole ';' false lead) (hfirst : Whole ';' false first.toList)
    (hothers : ∀ text ∈ others, Whole ';' false text.toList) :
    pieces ';' false (lead ++ ("; ".intercalate (first :: others)).toList) =
      (lead ++ first.toList) :: others.map fun text => ' ' :: text.toList := by
  induction others generalizing lead first with
  | nil => simpa using pieces_of_whole (hlead.append hfirst)
  | cons second others ih =>
      have hrest := ih whole_blank (hothers second List.mem_cons_self) fun text htext =>
        hothers text (List.mem_cons_of_mem _ htext)
      have hsplit : lead ++ ("; ".intercalate (first :: second :: others)).toList =
          (lead ++ first.toList) ++
            ';' :: ([' '] ++ ("; ".intercalate (second :: others)).toList) := by
        simp [String.intercalate_cons_cons, String.toList_append]
      rw [hsplit, pieces_append (hlead.append hfirst), hrest]
      rfl

theorem read_intercalate {subject : String} (style : ComparatorStyle) {tests : List Test}
    (hsubject : ∀ test ∈ tests, test.subject = subject)
    (hwritten : ∀ test ∈ tests, Written test.value) :
    read subject ("; ".intercalate (tests.map style.testText)) = tests := by
  have htest {test : Test} (h : test ∈ tests) :
      testOf? subject (style.testText test).toList = some test := by
    rw [← hsubject test h]
    exact testOf?_testText style (hwritten test h)
  cases tests with
  | nil => rfl
  | cons first others =>
      have hothers : ∀ text ∈ others.map style.testText, Whole ';' false text.toList := by
        rintro _ htext
        obtain ⟨test, hmem, rfl⟩ := List.mem_map.1 htext
        exact whole_testText style (hwritten test (List.mem_cons_of_mem _ hmem))
      have hlead : Whole ';' false [] := rfl
      have hpieces := pieces_intercalate hlead
        (whole_testText style (hwritten first List.mem_cons_self)) hothers
      have hrest : others.filterMap
          (fun test => testOf? subject (' ' :: (style.testText test).toList)) =
            others.filterMap some := List.filterMap_congr fun test hmem => by
        rw [testOf?_space, htest (List.mem_cons_of_mem _ hmem)]
      rw [List.nil_append, List.nil_append] at hpieces
      rw [read, List.map_cons, hpieces, List.filterMap_cons_some (htest List.mem_cons_self),
        List.map_map, List.filterMap_map]
      exact congrArg (first :: ·) (hrest.trans List.filterMap_some)

theorem read_cell {condition : Condition} (h : ∀ test ∈ condition.tests, Written test.value)
    (subject : String) (style : ComparatorStyle) :
    read subject (condition.cell subject style) = condition.testsOf subject := by
  refine read_intercalate style (fun test htest => ?_) fun test htest => ?_
  · simpa using (List.mem_filter.1 htest).2
  · exact h test (List.mem_filter.1 htest).1

end ClassSelection.Cell
