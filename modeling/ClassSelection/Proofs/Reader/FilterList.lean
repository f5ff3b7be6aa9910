import ClassSelection.Proofs.Reader.Guard

/-!
# Filter lists

A FILTLIST statement has any number of sections, INCLUDE or EXCLUDE, each with
the tokens up to a closing parenthesis.  A section enters the text of its tokens
in the list, in the place of what an earlier section of its kind has entered.
-/

namespace ClassSelection

def Enclosed (patterns : List Token) : Prop :=
  ∀ pattern ∈ patterns, pattern ≠ .punct ')' ∧ pattern ≠ .endOfSource

instance (patterns : List Token) : Decidable (Enclosed patterns) :=
  inferInstanceAs (Decidable (∀ pattern ∈ patterns, _))

/-- `INCLUDE(…)` or `EXCLUDE(…)`. -/
structure FilterSection where
  includes : Bool
  patterns : List Token
  enclosed : Enclosed patterns

namespace FilterSection

def keyword (includes : Bool) : Token :=
  .word (if includes then "INCLUDE" else "EXCLUDE")

def tokens (part : FilterSection) : List Token :=
  keyword part.includes :: .punct '(' :: (part.patterns ++ [.punct ')'])

def text (part : FilterSection) : String :=
  String.join (part.patterns.map Token.text)

def enter (part : FilterSection) (list : FilterList) : FilterList :=
  if part.includes then { list with included := part.text }
  else { list with excluded := part.text }

def texts (includes : Bool) (parts : List FilterSection) : List String :=
  (parts.filter fun part => part.includes == includes).map text

theorem texts_cons (includes : Bool) (part : FilterSection) (parts : List FilterSection) :
    texts includes (part :: parts) =
      if part.includes = includes then part.text :: texts includes parts
      else texts includes parts := by
  by_cases hkind : part.includes = includes <;> simp [texts, hkind]

theorem foldl_enter (parts : List FilterSection) (list : FilterList) :
    parts.foldl (fun list part => part.enter list) list =
      ⟨list.name, (texts true parts).getLastD list.included,
        (texts false parts).getLastD list.excluded⟩ := by
  induction parts generalizing list with
  | nil => rfl
  | cons part parts ih =>
      rw [List.foldl_cons, ih, texts_cons, texts_cons]
      cases hkind : part.includes
      · simp only [enter, hkind, Bool.false_eq_true, if_false, if_true, List.getLastD_cons]
      · simp only [enter, hkind, Bool.true_eq_false, if_false, if_true, List.getLastD_cons]

end FilterSection

theorem join_eq_empty_iff {texts : List String} :
    String.join texts = "" ↔ ∀ text ∈ texts, text = "" := by
  induction texts with
  | nil => simp
  | cons text texts ih => simp [String.append_eq_empty_iff, ih]

theorem getLastD_eq_join_iff (texts : List String) :
    texts.getLastD "" = String.join texts ↔ ∀ text ∈ texts.dropLast, text = "" := by
  obtain rfl | ⟨earlier, last, rfl⟩ := List.eq_nil_or_concat' texts
  · simp
  · have hlast : String.join earlier ++ last = "" ++ last ↔ String.join earlier = "" :=
      String.append_left_inj last
    rw [String.empty_append, join_eq_empty_iff] at hlast
    simp only [List.getLastD_concat, List.dropLast_concat, String.join_append, String.join_cons,
      String.join_nil, String.append_empty, ← hlast, eq_comm]

namespace Reader

variable {bound : Nat} {before after : List Token} {tests : List WrittenTest}

/-- Items one after another, where each is told by its tokens and something ends them. -/
theorem repeated_quiet_iff {ι γ : Type} {phrase : List Token → List Token → Option γ → Prop}
    {valid : ι → Prop} {tokens : ι → List Token} {value : ι → γ}
    {ended : List Token → List Token → Prop}
    (h : ∀ before after found, phrase before after found ↔
      (∃ item, valid item ∧ before = tokens item ++ after ∧ found = some (value item)) ∨
        ended before after ∧ found = none) {values : List γ} :
    Repeated (Quiet phrase) before after values tests ↔
      (∃ (items : List ι) (rest : List Token), (∀ item ∈ items, valid item) ∧
        before = items.flatMap tokens ++ rest ∧ ended rest after ∧ values = items.map value) ∧
      tests = [] := by
  constructor
  · intro hrepeated
    induction hrepeated with
    | done hend =>
        obtain ⟨hend, rfl⟩ := hend
        obtain ⟨_, -, -, hfound⟩ | ⟨hended, -⟩ := (h _ _ _).1 hend
        · cases hfound
        · exact ⟨⟨[], _, by simp, rfl, hended, rfl⟩, rfl⟩
    | more hfirst _ ih =>
        obtain ⟨hfirst, rfl⟩ := hfirst
        obtain ⟨item, hvalid, rfl, hfound⟩ | ⟨-, hfound⟩ := (h _ _ _).1 hfirst
        · cases hfound
          obtain ⟨⟨items, rest, hitems, rfl, hended, rfl⟩, rfl⟩ := ih
          have hall := List.forall_mem_cons.2 ⟨hvalid, hitems⟩
          exact ⟨⟨item :: items, rest, hall, by simp, hended, rfl⟩, rfl⟩
        · cases hfound
  · rintro ⟨⟨items, rest, hitems, rfl, hended, rfl⟩, rfl⟩
    induction items with
    | nil => exact .done ⟨(h _ _ _).2 (.inr ⟨hended, rfl⟩), rfl⟩
    | cons item items ih =>
        obtain ⟨hvalid, hitems⟩ := List.forall_mem_cons.1 hitems
        rw [List.flatMap_cons, List.append_assoc]
        exact .more ⟨(h _ _ _).2 (.inl ⟨item, hvalid, rfl, rfl⟩), rfl⟩ (ih hitems)

/-! ## Patterns -/

def PatternText (before after : List Token) (text : Option String) : Prop :=
  (before = .punct ')' :: after ∧ text = none) ∨
    ∃ pattern, (pattern ≠ .punct ')' ∧ pattern ≠ .endOfSource) ∧ before = pattern :: after ∧
      text = some pattern.text

theorem accepts_closingText? : Accepts bound closingText? id (Quiet PatternText) := by
  have hlater (token : Token) (hne : token ≠ .endOfSource) : Accepts (bound - 1)
      (do
        if token == .punct ')' then
          return none
        if token == .endOfSource then
          missing "closing parenthesis" token
        return some token.text) id
      (Quiet (Blank (if token = .punct ')' then none else some token.text))) := by
    by_cases hclose : token = .punct ')'
    · rw [if_pos (by simp [hclose]), if_pos hclose]
      exact .pure rfl
    · rw [if_neg (by simp [hclose]), if_neg hclose]
      change Accepts (bound - 1) (if token == .endOfSource then _ else _) id _
      rw [if_neg (by simp [hne])]
      exact .pure rfl
  have htext : Accepts bound closingText? id _ :=
    Accepts.next hlater fun s a s' h => by cases h
  refine htext.congr fun before after text tests => ⟨?_, ?_⟩
  · rintro ⟨token, _, rfl, hne, ⟨rfl, rfl⟩, rfl⟩
    by_cases hclose : token = .punct ')'
    · exact ⟨.inl ⟨by rw [hclose], if_pos hclose⟩, rfl⟩
    · exact ⟨.inr ⟨token, ⟨hclose, hne⟩, rfl, if_neg hclose⟩, rfl⟩
  · rintro ⟨⟨rfl, rfl⟩ | ⟨token, ⟨hclose, hne⟩, rfl, rfl⟩, rfl⟩
    · exact ⟨_, _, rfl, by simp, ⟨rfl, (if_pos rfl).symm⟩, rfl⟩
    · exact ⟨_, _, rfl, hne, ⟨rfl, (if_neg hclose).symm⟩, rfl⟩

theorem repeated_patternText_iff {texts : List String} :
    Repeated (Quiet PatternText) before after texts tests ↔
      (∃ patterns, Enclosed patterns ∧ before = patterns ++ .punct ')' :: after ∧
        texts = patterns.map Token.text) ∧ tests = [] := by
  have hpattern (before after : List Token) (text : Option String) :
      PatternText before after text ↔
        (∃ pattern, (pattern ≠ .punct ')' ∧ pattern ≠ .endOfSource) ∧
          before = [pattern] ++ after ∧ text = some pattern.text) ∨
        before = .punct ')' :: after ∧ text = none :=
    or_comm
  rw [repeated_quiet_iff hpattern]
  refine and_congr_left fun _ => exists_congr fun patterns => ?_
  rw [List.flatMap_singleton']
  constructor
  · rintro ⟨_, henclosed, rfl, rfl, rfl⟩
    exact ⟨henclosed, rfl, rfl⟩
  · rintro ⟨henclosed, rfl, rfl⟩
    exact ⟨_, henclosed, rfl, rfl, rfl⟩

theorem accepts_textToClose : Accepts bound textToClose id (Quiet fun before after text =>
    ∃ patterns, Enclosed patterns ∧ before = patterns ++ .punct ')' :: after ∧
      text = String.join (patterns.map Token.text)) := by
  have hitem : Accepts bound closingText? (Option.map id) (Quiet PatternText) := by
    rw [Option.map_id]
    exact accepts_closingText?
  have htext : Accepts bound textToClose id _ :=
    (Accepts.many (fun _ => agree_closingText?) hitem).bind
      (F := fun texts => Quiet (Blank (String.join texts))) fun texts value hvalue => by
        rw [List.map_id] at hvalue
        exact hvalue ▸ .pure rfl
  refine htext.congr fun before after text tests => ⟨?_, ?_⟩
  · rintro ⟨_, _, _, _, hpatterns, ⟨⟨rfl, rfl⟩, rfl⟩, rfl⟩
    obtain ⟨⟨patterns, henclosed, rfl, rfl⟩, rfl⟩ := repeated_patternText_iff.1 hpatterns
    exact ⟨⟨patterns, henclosed, rfl, rfl⟩, rfl⟩
  · rintro ⟨⟨patterns, henclosed, rfl, rfl⟩, rfl⟩
    exact ⟨_, _, _, _, repeated_patternText_iff.2 ⟨⟨patterns, henclosed, rfl, rfl⟩, rfl⟩,
      ⟨⟨rfl, rfl⟩, rfl⟩, rfl⟩

/-! ## Sections -/

def enclosedText (enter : String → FilterList → FilterList) :
    Reader (Option (FilterList → FilterList)) := do
  expect '(' "( after INCLUDE or EXCLUDE"
  let patterns ← textToClose
  return some (enter patterns)

theorem accepts_enclosedText (enter : String → FilterList → FilterList) :
    Accepts bound (enclosedText enter) id (Quiet fun before after found =>
      ∃ patterns, Enclosed patterns ∧ before = .punct '(' :: (patterns ++ .punct ')' :: after) ∧
        found = some (enter (String.join (patterns.map Token.text)))) := by
  have henclosed : Accepts bound (enclosedText enter) id _ :=
    accepts_expect.andThen fun _ => accepts_textToClose.andThen fun _ => .pure rfl
  refine henclosed.congr fun before after found tests => ⟨?_, ?_⟩
  · rintro ⟨_, _, rfl, _, _, ⟨patterns, henclosed, rfl, rfl⟩, ⟨rfl, rfl⟩, rfl⟩
    exact ⟨⟨patterns, henclosed, rfl, rfl⟩, rfl⟩
  · rintro ⟨⟨patterns, henclosed, rfl, rfl⟩, rfl⟩
    exact ⟨_, (), rfl, _, _, ⟨patterns, henclosed, rfl, rfl⟩, ⟨rfl, rfl⟩, rfl⟩

def SectionsEnded (rest : List Token) : Prop :=
  ∀ includes, upcoming rest ≠ FilterSection.keyword includes

def SectionNext (before after : List Token) (enter : Option (FilterList → FilterList)) : Prop :=
  (∃ part : FilterSection, before = part.tokens ++ after ∧ enter = some part.enter) ∨
    (SectionsEnded before ∧ after = before ∧ enter = none)

theorem accepts_filterSection? : Accepts bound filterSection? id (Quiet SectionNext) := by
  have hsection : Accepts bound filterSection? id _ :=
    accepts_accept rfl
      (accepts_enclosedText fun patterns list => { list with included := patterns })
      (accepts_accept rfl
        (accepts_enclosedText fun patterns list => { list with excluded := patterns })
        (.pure rfl))
  refine hsection.congr fun before after enter tests => ⟨?_, ?_⟩
  · rintro (⟨_, _, rfl, htoken, ⟨patterns, henclosed, rfl, rfl⟩, rfl⟩ | ⟨hinclude, hother⟩)
    · obtain rfl := eq_of_beq htoken
      refine ⟨.inl ⟨⟨true, patterns, henclosed⟩, ?_, rfl⟩, rfl⟩
      simp [FilterSection.tokens, FilterSection.keyword]
    · obtain ⟨_, _, rfl, htoken, ⟨patterns, henclosed, rfl, rfl⟩, rfl⟩ |
        ⟨hexclude, ⟨rfl, rfl⟩, rfl⟩ := hother
      · obtain rfl := eq_of_beq htoken
        refine ⟨.inl ⟨⟨false, patterns, henclosed⟩, ?_, rfl⟩, rfl⟩
        simp [FilterSection.tokens, FilterSection.keyword]
      · rw [beq_eq_false_iff_ne] at hinclude hexclude
        exact ⟨.inr ⟨Bool.forall_bool.2 ⟨hexclude, hinclude⟩, rfl, rfl⟩, rfl⟩
  · rintro ⟨⟨⟨includes, patterns, henclosed⟩, rfl, rfl⟩ | ⟨hended, rfl, rfl⟩, rfl⟩
    · cases includes
      · refine .inr ⟨rfl, .inl ⟨_, _, rfl, beq_self_eq_true _, ⟨patterns, henclosed, ?_, rfl⟩, rfl⟩⟩
        simp
      · refine .inl ⟨_, _, rfl, beq_self_eq_true _, ⟨patterns, henclosed, ?_, rfl⟩, rfl⟩
        simp
    · rw [SectionsEnded, Bool.forall_bool] at hended
      exact .inr ⟨beq_eq_false_iff_ne.2 hended.2, .inr ⟨beq_eq_false_iff_ne.2 hended.1,
        ⟨rfl, rfl⟩, rfl⟩⟩

theorem repeated_sectionNext_iff {enters : List (FilterList → FilterList)} :
    Repeated (Quiet SectionNext) before after enters tests ↔
      (∃ parts : List FilterSection, before = parts.flatMap FilterSection.tokens ++ after ∧
        SectionsEnded after ∧ enters = parts.map FilterSection.enter) ∧ tests = [] := by
  have hsection (before after : List Token) (enter : Option (FilterList → FilterList)) :
      SectionNext before after enter ↔
        (∃ part : FilterSection, True ∧ before = part.tokens ++ after ∧ enter = some part.enter) ∨
        (SectionsEnded before ∧ after = before) ∧ enter = none := by
    simp only [SectionNext, true_and, and_assoc]
  rw [repeated_quiet_iff hsection]
  refine and_congr_left fun _ => exists_congr fun parts => ?_
  constructor
  · rintro ⟨_, -, rfl, ⟨hended, rfl⟩, rfl⟩
    exact ⟨rfl, hended, rfl⟩
  · rintro ⟨rfl, hended, rfl⟩
    exact ⟨_, fun _ _ => trivial, rfl, ⟨hended, rfl⟩, rfl⟩

/-! ## The statement -/

theorem filtlist_run {s : Reading} {name : Token} {parts : List FilterSection} {rest : List Token}
    (htokens : s.tokens.toList = name :: (parts.flatMap FilterSection.tokens ++ rest))
    (hrest : SectionsEnded rest) : ∃ s', s.Gains s' [] ∧ s'.tokens.toList = rest ∧
      filtlist s = .ok () { s' with filterLists := s'.filterLists ++
        [parts.foldl (fun list part => part.enter list) ⟨name.text, "", ""⟩] } := by
  obtain ⟨rfl, hne, hrest'⟩ := TokenStream.toList_eq_cons_iff.1 htokens
  have hitem : Accepts (s.tokens.next.2.toList.length + 1) filterSection? (Option.map id)
      (Quiet SectionNext) := by
    rw [Option.map_id]
    exact accepts_filterSection?
  have hmany := (Accepts.many (fun _ => agree_filterSection?) hitem).complete
    (s := { s with tokens := s.tokens.next.2 }) (Nat.lt_succ_self _)
    (repeated_sectionNext_iff.2 ⟨⟨parts, hrest', hrest, rfl⟩, rfl⟩)
  obtain ⟨enters, s', hrun, henters, hafter, hgains⟩ := hmany
  rw [List.map_id] at henters
  refine ⟨s', hgains.of_tokens, hafter, ?_⟩
  rw [filtlist, bind_run, next_run]
  dsimp only
  rw [if_neg (by simp [hne]), bind_run, hrun, henters]
  dsimp only
  rw [List.foldl_map]
  rfl

theorem statement?_filtlist {s s' : Reading} (hkeyword : s.tokens.next.1 = .word "FILTLIST")
    (hrun : filtlist { s with tokens := s.tokens.next.2 } = .ok () s') :
    statement? s = .ok (some .skip) s' := by
  rw [statement?_eq, statementWith?, bind_run, next_run, hkeyword]
  exact bind_eq_ok.2 ⟨(), s', hrun, rfl⟩

/-- A FILTLIST statement is read up to the first token that starts no section, whatever its sections
are.  Of the sections of a kind its list has the patterns of the last one, which are all of them
exactly if the sections before it are empty. -/
theorem filter_list_of_sections (s : Reading) {name : Token} {parts : List FilterSection}
    {rest : List Token}
    (htokens : s.tokens.toList =
      .word "FILTLIST" :: name :: (parts.flatMap FilterSection.tokens ++ rest))
    (hrest : SectionsEnded rest) :
    ∃ s' list, statement? s = .ok (some .skip) s' ∧ s'.tokens.toList = rest ∧
      s'.filterLists = s.filterLists ++ [list] ∧
      s.Gains { s' with filterLists := s.filterLists } [] ∧ list.name = name.text ∧
      list.included = (FilterSection.texts true parts).getLastD "" ∧
      list.excluded = (FilterSection.texts false parts).getLastD "" ∧
      (list.included = String.join (FilterSection.texts true parts) ↔
        ∀ text ∈ (FilterSection.texts true parts).dropLast, text = "") ∧
      (list.excluded = String.join (FilterSection.texts false parts) ↔
        ∀ text ∈ (FilterSection.texts false parts).dropLast, text = "") := by
  obtain ⟨hkeyword, -, hname⟩ := TokenStream.toList_eq_cons_iff.1 htokens
  obtain ⟨s', hgains, hafter, hrun⟩ :=
    filtlist_run (s := { s with tokens := s.tokens.next.2 }) hname hrest
  rw [FilterSection.foldl_enter, hgains.filterLists] at hrun
  exact ⟨_, _, statement?_filtlist hkeyword hrun, hafter, rfl,
    ⟨hgains.registry, hgains.anomalies, rfl, hgains.kind, hgains.assigned⟩, rfl, rfl, rfl,
    getLastD_eq_join_iff _, getLastD_eq_join_iff _⟩

/-- Of `FILTLIST L INCLUDE(A) INCLUDE(B)` the list has `B` only. -/
theorem filter_list_of_two_sections :
    let s := Reading.ofSource "FILTLIST L INCLUDE(A) INCLUDE(B)"
    let parts : List FilterSection :=
      [⟨true, [.word "A"], by decide⟩, ⟨true, [.word "B"], by decide⟩]
    s.tokens.toList =
        .word "FILTLIST" :: .word "L" :: (parts.flatMap FilterSection.tokens ++ []) ∧
      SectionsEnded [] ∧ ∃ s' list, statement? s = .ok (some .skip) s' ∧
        s'.filterLists = [list] ∧ list.included = "B" ∧
        String.join (FilterSection.texts true parts) = "AB" := by
  intro s parts
  have htokens : s.tokens.toList =
      .word "FILTLIST" :: .word "L" :: (parts.flatMap FilterSection.tokens ++ []) := by
    decide +kernel
  have hended : SectionsEnded [] := by simp [SectionsEnded, upcoming, FilterSection.keyword]
  obtain ⟨s', list, hrun, -, hlists, -, -, hincluded, -⟩ := filter_list_of_sections s htokens hended
  exact ⟨htokens, hended, s', list, hrun, hlists, hincluded, by decide +kernel⟩

end Reader

end ClassSelection
