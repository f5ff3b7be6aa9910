import ClassSelection.Proofs.Reader.Invariant
import ClassSelection.Proofs.Reader.Recursion

/-!
# What is read is well-formed

One lemma for each reader, in the order of the grammar: it keeps readings
sound, fails with nothing but a fault in the source, and the guards that it has
read compare registered variables with values.
-/

namespace ClassSelection

mutual

def Statement.guards : Statement → List Expr
  | .skip => []
  | .assign _ _ => []
  | .exit => []
  | .seq first second => first.guards ++ second.guards
  | .block body => body.guards
  | .ifThen guard body => guard :: body.guards
  | .ifElse guard body alternative => guard :: (body.guards ++ alternative.guards)
  | .select branches => branches.guards

def Branches.guards : Branches → List Expr
  | .done => []
  | .otherwise body => body.guards
  | .when guard body others => guard :: (body.guards ++ others.guards)

end

def Statement.WellFormed (names : List String) (statement : Statement) : Prop :=
  ∀ guard ∈ statement.guards, guard.WellFormed names

def Branches.WellFormed (names : List String) (branches : Branches) : Prop :=
  ∀ guard ∈ branches.guards, guard.WellFormed names

section

variable {names names' : List String}

namespace Statement

theorem WellFormed.mono {statement : Statement} (hnames : names ⊆ names')
    (h : statement.WellFormed names) : statement.WellFormed names' :=
  fun guard hguard => (h guard hguard).mono hnames

theorem wellFormed_skip : skip.WellFormed names := by
  simp [WellFormed, guards]

theorem wellFormed_getD {found : Option Statement}
    (h : ∀ statement ∈ found, statement.WellFormed names) :
    (found.getD skip).WellFormed names := by
  cases found with
  | none => exact wellFormed_skip
  | some statement => exact h statement rfl

theorem wellFormed_sequence {statements : List Statement}
    (h : ∀ statement ∈ statements, statement.WellFormed names) :
    (sequence statements).WellFormed names := by
  induction statements with
  | nil => exact wellFormed_skip
  | cons first others ih =>
      intro guard hguard
      rcases List.mem_append.1 hguard with hguard | hguard
      · exact h first List.mem_cons_self guard hguard
      · exact ih (fun s hs => h s (List.mem_cons_of_mem _ hs)) guard hguard

theorem wellFormed_ifThen {guard : Expr} {body : Statement} (hguard : guard.WellFormed names)
    (hbody : body.WellFormed names) : (ifThen guard body).WellFormed names :=
  List.forall_mem_cons.2 ⟨hguard, hbody⟩

theorem wellFormed_ifElse {guard : Expr} {body alternative : Statement}
    (hguard : guard.WellFormed names) (hbody : body.WellFormed names)
    (halternative : alternative.WellFormed names) :
    (ifElse guard body alternative).WellFormed names :=
  List.forall_mem_cons.2 ⟨hguard, List.forall_mem_append.2 ⟨hbody, halternative⟩⟩

end Statement

theorem Branches.wellFormed_prepend {whens : List (Expr × Statement)} {others : Branches}
    (hwhens : ∀ branch ∈ whens, branch.1.WellFormed names ∧ branch.2.WellFormed names)
    (hothers : others.WellFormed names) : (Branches.prepend whens others).WellFormed names := by
  induction whens with
  | nil => exact hothers
  | cons first whens ih =>
      obtain ⟨hguard, hbody⟩ := hwhens first List.mem_cons_self
      have hrest := ih fun branch hbranch => hwhens branch (List.mem_cons_of_mem _ hbranch)
      exact List.forall_mem_cons.2 ⟨hguard, List.forall_mem_append.2 ⟨hbody, hrest⟩⟩

end

theorem isVariable_append {text : String} (h : isVariable text = true) (more : String) :
    isVariable (text ++ more) = true := by
  unfold isVariable at h ⊢
  rw [String.toList_append, List.head?_append, beq_iff_eq.1 h]
  rfl

theorem Token.isVariable_text {token : Token} (h : token.isVariable = true) :
    ClassSelection.isVariable token.text = true := by
  cases token with
  | word text => exact h
  | literal _ => cases h
  | punct _ => cases h
  | endOfSource => cases h

namespace Reader

variable {source : String} {known : List String}

/-! ## Guards -/

theorem keeps_variableName? :
    Keeps source known variableName? fun _ name =>
      ∀ text ∈ name, isVariable text = true ∧ Written text := by
  refine keeps_next fun token hcanonical => ?_
  split
  · rename_i htoken
    have hname := Token.isVariable_text htoken
    have htoken' : token.Canonical := hcanonical (by rintro rfl; cases htoken)
    refine (keeps_accept.andThen fun taken => ?_).after
    split
    · refine keeps_next fun qualifier hqualifier => ?_
      split
      · exact keeps_missing.stop.after
      · rename_i hend
        refine (keeps_expect.andThen fun _ => keeps_pure ?_).after
        rintro names - _ ⟨⟩
        exact ⟨isVariable_append (isVariable_append (isVariable_append hname _) _) _,
          .qualified htoken' htoken (hqualifier (by simpa using hend))⟩
    · refine keeps_pure ?_
      rintro names - _ ⟨⟩
      exact ⟨hname, .token htoken'⟩
  · exact keepsAfter_putBack (keeps_pure fun _ _ => by simp)

theorem keeps_secondSymbol : Keeps source known secondSymbol Any := by
  refine keeps_next fun token _ => ?_
  split
  · exact (keeps_pure fun _ _ => trivial).after
  · exact keepsAfter_putBack (keeps_pure fun _ _ => trivial)

theorem keeps_comparator : Keeps source known comparator Any := by
  have hlast (spelling : String) : Keeps source known
      (do throw (.invalidComparator spelling (← line)) : Reader Comparator) Any :=
    keeps_throw_line (fun _ => rfl) nofun nofun
  refine keeps_next fun token _ => ?_
  dsimp only
  split
  · refine (keeps_secondSymbol.andThen fun second => ?_).after
    split
    · exact keeps_pure fun _ _ => trivial
    · exact hlast _
  · rw [pure_bind]
    split
    · exact (keeps_pure fun _ _ => trivial).after
    · exact (hlast _).after

/-- The text is as it is read, and is a variable's name if it is said to be one. -/
structure Operand.Sound (operand : Operand) : Prop where
  written : Written operand.text
  isVariable : operand.isVariable = true → ClassSelection.isVariable operand.text = true

theorem keeps_operand : Keeps source known operand fun _ operand => operand.Sound := by
  refine keeps_variableName?.bind fun name names _ hname => ?_
  split
  · rename_i text
    obtain ⟨hvariable, hwritten⟩ := hname text rfl
    exact keeps_pure fun _ _ => ⟨hwritten, fun _ => hvariable⟩
  · refine keeps_next fun token hcanonical => ?_
    split
    · exact keeps_missing.stop.after
    · rename_i hend
      exact (keeps_pure fun _ _ => ⟨.token (hcanonical (by simpa using hend)), nofun⟩).after

theorem keeps_test : Keeps source known test Test.AsRead := by
  have hlast {subject value : String} (comparator : Comparator) {names : List String}
      (hsubject : isVariable subject = true) (hvalue : Written value) :
      Keeps source names (do register subject; return (⟨subject, comparator, value⟩ : Test))
        Test.AsRead :=
    keeps_register.bind fun _ names _ hregistered => keeps_pure fun _ hnames =>
      .of_written hsubject (hnames hregistered) hvalue
  refine keeps_operand.bind fun left _ _ hleft => keeps_comparator.bind fun comparator _ _ _ =>
    keeps_operand.bind fun right _ _ hright => ?_
  split
  · rename_i hvariable
    exact hlast _ (hleft.isVariable hvariable) hright.written
  · split
    · rename_i hvariable
      exact keeps_report.andThen fun _ =>
        hlast _ (hright.isVariable hvariable) hleft.written
    · exact keeps_throw_line_bind (fun _ => rfl) (by simp) (by simp)

theorem keeps_exprWith {nested : Reader Expr} (h : Keeps source [] nested Expr.WellFormed) :
    Keeps source [] (exprWith nested) Expr.WellFormed := by
  have hnested {names : List String} : Keeps source names nested Expr.WellFormed :=
    h.weaken (List.nil_subset _)
  have hconnected {first : Expr} {names : List String} (hfirst : first.WellFormed names) :
      Keeps source names (connected nested first) Expr.WellFormed := by
    refine keeps_next fun connective _ => ?_
    split
    · exact (hnested.bind fun second _ hnames hsecond => keeps_pure fun _ hnames' =>
        .both ((hfirst.mono hnames).mono hnames') (hsecond.mono hnames')).after
    · split
      · exact (hnested.bind fun second _ hnames hsecond => keeps_pure fun _ hnames' =>
          .either ((hfirst.mono hnames).mono hnames') (hsecond.mono hnames')).after
      · exact keepsAfter_putBack (keeps_pure fun _ hnames => hfirst.mono hnames)
  refine keeps_next fun token _ => ?_
  dsimp only
  split
  · exact (hnested.bind fun inner _ _ hinner => keeps_expect.bind fun _ _ hnames _ =>
      hconnected (hinner.mono hnames)).after
  · split
    · exact keeps_missing.stop.after
    · have htest : Keeps source [] (Expr.test <$> test) Expr.WellFormed :=
        keeps_test.bind fun test _ _ htest => keeps_pure fun _ hnames => .test (htest.mono hnames)
      exact keepsAfter_putBack (htest.bind fun first _ _ hfirst => hconnected hfirst)

theorem keeps_expr : Keeps source known expr Expr.WellFormed :=
  (keeps_nest keeps_missing fun _ h => keeps_exprWith h).weaken (List.nil_subset _)

/-! ## Declarations -/

theorem keeps_proc : Keeps source known proc Any := by
  have hkind (kind : RoutineKind) : Keeps source known
      (modify fun reading => { reading with kind := some kind }) Any :=
    keeps_modify (fun _ => rfl) fun _ => rfl
  have hinvalid (name : String) : Keeps source known
      (do throw (.invalidRoutine name (← line)) : Reader Unit) Any :=
    keeps_throw_line (fun _ => rfl) nofun nofun
  refine keeps_next fun label _ => ?_
  dsimp only
  split
  · refine (keeps_next fun token _ => ?_).after
    split
    · exact (hkind _).after
    · exact (hinvalid _).after
  · rw [pure_bind]
    split
    · exact (hkind _).after
    · exact (hinvalid _).after

theorem keeps_closingText? : Keeps source known closingText? Any := by
  refine keeps_next fun token _ => ?_
  split
  · exact (keeps_pure fun _ _ => trivial).after
  · split
    · exact keeps_missing.stop.after
    · exact (keeps_pure fun _ _ => trivial).after

theorem keeps_textToClose : Keeps source known textToClose Any :=
  (keeps_many_any keeps_closingText?).andThen fun _ => keeps_pure fun _ _ => trivial

theorem keeps_filterSection? : Keeps source known filterSection? Any := by
  have hsection (f : String → FilterList → FilterList) : Keeps source known (do
      expect '(' "( after INCLUDE or EXCLUDE"
      let patterns ← textToClose
      return some (f patterns)) Any :=
    keeps_expect.andThen fun _ => keeps_textToClose.andThen fun _ => keeps_pure fun _ _ => trivial
  refine keeps_accept.andThen fun taken => ?_
  split
  · exact hsection _
  · refine keeps_accept.andThen fun taken => ?_
    split
    · exact hsection _
    · exact keeps_pure fun _ _ => trivial

theorem keeps_filtlist : Keeps source known filtlist Any := by
  have hlast (name : Token) : Keeps source known (do
      let sections ← many filterSection?
      let list := sections.foldl (fun list enter => enter list) ⟨name.text, "", ""⟩
      modify fun reading => { reading with filterLists := reading.filterLists ++ [list] }) Any := by
    exact (keeps_many_any keeps_filterSection?).andThen fun sections =>
      keeps_modify (fun _ => rfl) fun _ => rfl
  refine keeps_next fun name _ => ?_
  split
  · exact keeps_missing.stop.after
  · exact (hlast name).after

/-! ## Statements -/

def assignedValue : Reader Statement := do
  let value ← next
  if value == .endOfSource then
    missing "SET value" value
  modify fun reading => { reading with assigned := true }
  return .assign value.text (← line)

def signAndValue : Reader Statement := do
  let sign ← next
  unless sign == .punct '=' || sign == .word "EQ" do
    missing "= or EQ" sign
  assignedValue

theorem keeps_assignedValue : Keeps source known assignedValue Statement.WellFormed := by
  have hmark : Keeps source known (modify fun reading => { reading with assigned := true }) Any :=
    keeps_modify (fun _ => rfl) fun _ => rfl
  refine keeps_next fun value _ => ?_
  split
  · exact keeps_missing.stop.after
  · exact (hmark.andThen fun _ => keeps_line.andThen fun line =>
      keeps_pure fun _ _ => by simp [Statement.WellFormed, Statement.guards]).after

theorem keeps_signAndValue : Keeps source known signAndValue Statement.WellFormed := by
  refine keeps_next fun sign _ => ?_
  split
  · exact keeps_assignedValue.after
  · exact keeps_missing.stop.after

theorem keeps_assignment : Keeps source known assignment Statement.WellFormed := by
  refine keeps_next fun target _ => ?_
  dsimp only
  split
  · rw [pure_bind]
    refine (keeps_get.andThen fun reading => ?_).after
    split
    · split
      · exact keeps_signAndValue
      · exact keeps_throw_line_bind (fun _ => rfl) (by simp) (by simp)
    · exact keeps_signAndValue
  · exact (keeps_throw_line_bind (fun _ => rfl) (by simp) (by simp)).after

theorem keeps_exit : Keeps source known exit Statement.WellFormed := by
  refine keeps_line.bind fun line _ _ hbounds => ?_
  have hlast {names : List String} : Keeps source names (do
      unless (← get).assigned do
        throw (.exitWithoutRule line)
      return Statement.exit) Statement.WellFormed := by
    refine keeps_get.andThen fun reading => ?_
    split
    · exact keeps_pure fun _ _ => by simp [Statement.WellFormed, Statement.guards]
    · exact (keeps_throw ⟨⟨line, rfl, hbounds⟩, by simp, by simp⟩).stop
  refine keeps_accept.andThen fun taken => ?_
  split
  · refine keeps_expect.andThen fun _ => keeps_next fun code _ => ?_
    split
    · exact keeps_missing.stop.after
    · exact (keeps_expect.andThen fun _ => hlast).after
  · exact hlast

theorem keeps_writtenText? : Keeps source known writtenText? Any := by
  refine keeps_accept.andThen fun taken => ?_
  split
  · exact keeps_pure fun _ _ => trivial
  · exact keeps_pure fun _ _ => trivial

theorem keeps_write : Keeps source known write Any :=
  (keeps_many_any keeps_writtenText?).andThen fun _ => keeps_pure fun _ _ => trivial

theorem keeps_whenValue {subject : String} :
    Keeps source known (whenValue subject) fun names value => subject ∈ names ∧ Written value := by
  refine keeps_next fun value hcanonical => ?_
  split
  · exact keeps_missing.stop.after
  · rename_i hvalue
    have hend : value ≠ .endOfSource := by
      rintro rfl
      exact hvalue rfl
    exact (keeps_register.bind fun _ _ _ hregistered => keeps_pure fun _ hnames =>
      ⟨hnames hregistered, .token (hcanonical hend)⟩).after

theorem keeps_listedValue? {subject : String} :
    Keeps source known (listedValue? subject) fun _ found => ∀ value ∈ found, Written value := by
  refine keeps_accept.andThen fun taken => ?_
  split
  · exact keeps_whenValue.bind fun value _ _ hvalue => keeps_pure fun _ _ => by simpa using hvalue.2
  · exact keeps_pure fun _ _ => by simp

theorem keeps_whenValues {subject : String} (hsubject : isVariable subject = true) :
    Keeps source known (whenValues subject) Expr.WellFormed :=
  keeps_whenValue.bind fun _ _ _ hfirst =>
    (keeps_many (fun _ h => h) keeps_listedValue?).bind fun _ _ hnames hothers =>
      keeps_pure fun _ hnames' => .oneOf hsubject (hnames' (hnames hfirst.1)) hfirst.2 hothers

section

variable {nested : Reader (Option Statement)}

abbrev KeepsStatements (source : String) (nested : Reader (Option Statement)) : Prop :=
  Keeps source [] nested fun names found => ∀ statement ∈ found, statement.WellFormed names

theorem keeps_blockWith (h : KeepsStatements source nested) :
    Keeps source known (blockWith nested) Statement.WellFormed := by
  refine Yields.bind (keeps_many (fun hnames hs => hs.mono hnames) (h.weaken (List.nil_subset _)))
    fun statements _ _ hstatements => keeps_pure fun _ hnames => ?_
  exact Statement.wellFormed_sequence fun statement hs => (hstatements statement hs).mono hnames

theorem keeps_conditionalWith (h : KeepsStatements source nested) :
    Keeps source known (conditionalWith nested) Statement.WellFormed := by
  have hnested {names : List String} := h.weaken (List.nil_subset names)
  refine keeps_expr.bind fun guard names _ hguard => keeps_next fun token _ => ?_
  dsimp only
  split
  · refine (hnested.bind fun body names' hnames hbody => ?_).after
    have hbody' := Statement.wellFormed_getD hbody
    refine keeps_accept.andThen fun taken => ?_
    split
    · refine hnested.bind fun alternative _ hnames' halternative => keeps_pure fun _ hnames'' => ?_
      have halternative' := Statement.wellFormed_getD halternative
      exact (Statement.wellFormed_ifElse ((hguard.mono hnames).mono hnames') (hbody'.mono hnames')
        halternative').mono hnames''
    · exact keeps_pure fun _ hnames' =>
        (Statement.wellFormed_ifThen (hguard.mono hnames) hbody').mono hnames'
  · exact keeps_missing.stop.after

theorem keeps_whenWith? (h : KeepsStatements source nested) {subject : Option String}
    (hsubject : ∀ name ∈ subject, isVariable name = true) :
    Keeps source known (whenWith? nested subject) fun names found =>
      ∀ branch ∈ found, branch.1.WellFormed names ∧ branch.2.WellFormed names := by
  have hbody {guard : Expr} {names : List String} (hguard : guard.WellFormed names) :
      Keeps source names
        (do
          expect ')' "closing parenthesis on WHEN"
          let body ← blockWith nested
          return some (guard, body))
        fun names found =>
          ∀ branch ∈ found, branch.1.WellFormed names ∧ branch.2.WellFormed names := by
    refine keeps_expect.bind fun _ _ hnames _ =>
      (keeps_blockWith h).bind fun body _ hnames' hbody => keeps_pure ?_
    rintro names'' hnames'' _ ⟨⟩
    exact ⟨((hguard.mono hnames).mono hnames').mono hnames'', hbody.mono hnames''⟩
  refine keeps_accept.andThen fun taken => ?_
  split
  · refine keeps_expect.andThen fun _ => ?_
    split
    · rename_i name
      exact (keeps_whenValues (hsubject name rfl)).bind fun guard _ _ hguard => hbody hguard
    · exact keeps_expr.bind fun guard _ _ hguard => hbody hguard
  · exact keeps_pure fun _ _ => by simp

theorem keeps_selectSubject :
    Keeps source known selectSubject fun _ subject => isVariable subject = true := by
  refine keeps_variableName?.bind fun name _ _ hname => ?_
  split
  · rename_i subject
    exact keeps_pure fun _ _ => (hname subject rfl).1
  · refine keeps_next fun found _ => ?_
    exact (keeps_throw_line (fun _ => rfl) (by simp) (by simp)).after

theorem keeps_selectWith (h : KeepsStatements source nested) :
    Keeps source known (selectWith nested) Statement.WellFormed := by
  have hbranches {names : List String} {subject : Option String}
      (hsubject : ∀ name ∈ subject, isVariable name = true) :
      Keeps source names (branchesWith nested subject) Statement.WellFormed := by
    refine (keeps_many (fun hnames hbranch => hbranch.imp (·.mono hnames) (·.mono hnames))
      (keeps_whenWith? h hsubject)).bind fun whens _ _ hwhens => ?_
    refine keeps_accept.andThen fun taken => ?_
    split
    · refine (keeps_blockWith h).bind fun body _ hnames hbody => keeps_pure fun _ hnames' => ?_
      have hwhens' := fun branch hbranch =>
        (hwhens branch hbranch).imp (·.mono hnames) (·.mono hnames)
      have hselect : (Statement.select (.prepend whens (.otherwise body))).WellFormed _ :=
        Branches.wellFormed_prepend hwhens' hbody
      exact hselect.mono hnames'
    · refine keeps_pure fun _ hnames => ?_
      have hselect : (Statement.select (.prepend whens .done)).WellFormed _ :=
        Branches.wellFormed_prepend hwhens (by simp [Branches.WellFormed, Branches.guards])
      exact hselect.mono hnames
  refine keeps_accept.andThen fun taken => ?_
  split
  · refine keeps_selectSubject.bind fun subject _ _ hsubject => keeps_expect.andThen fun _ => ?_
    rw [pure_bind]
    apply hbranches
    rintro _ ⟨⟩
    exact hsubject
  · rw [pure_bind]
    apply hbranches
    simp

theorem keeps_statementWith? (h : KeepsStatements source nested) :
    KeepsStatements source (statementWith? nested) := by
  have hsome {x : Reader Statement}
      (hx : Keeps source [] x Statement.WellFormed) : Keeps source [] (do return some (← x))
        fun names found => ∀ statement ∈ found, statement.WellFormed names := by
    refine hx.bind fun statement _ _ hstatement => keeps_pure ?_
    rintro names hnames _ ⟨⟩
    exact hstatement.mono hnames
  have hskip {x : Reader Unit} (hx : Keeps source [] x Any) :
      Keeps source [] (do x; return some Statement.skip)
        fun names found => ∀ statement ∈ found, statement.WellFormed names := by
    refine hx.andThen fun _ => keeps_pure ?_
    rintro names - _ ⟨⟩
    exact Statement.wellFormed_skip
  have hnone : Keeps source [] (pure none)
      fun names found => ∀ statement ∈ found, Statement.WellFormed names statement :=
    keeps_pure fun _ _ => by simp
  refine keeps_next fun token _ => ?_
  split
  · exact (hskip keeps_proc).after
  · exact (hskip keeps_filtlist).after
  · exact (hskip keeps_write).after
  · exact (hsome keeps_assignment).after
  · exact (hsome keeps_exit).after
  · refine ((keeps_blockWith h).bind fun body _ _ hbody => keeps_pure ?_).after
    rintro names hnames _ ⟨⟩
    have hblock : (Statement.block body).WellFormed _ := hbody
    exact hblock.mono hnames
  · exact (hsome (keeps_conditionalWith h)).after
  · exact (hsome (keeps_selectWith h)).after
  · exact hnone.after
  · exact keepsAfter_putBack hnone
  · exact keepsAfter_putBack hnone
  · split
    · exact hnone.after
    · exact (hskip keeps_report).after

theorem keeps_statement? : KeepsStatements source statement? :=
  keeps_nest (keeps_pure fun _ _ => by simp) fun _ h => keeps_statementWith? h

/-! ## Routines -/

theorem keeps_strayBranch : Keeps source known strayBranch Any := by
  refine keeps_next fun token _ => ?_
  split
  · exact keeps_report.after
  · exact keeps_report.after
  · rw [← bind_pure (putBack token)]
    exact keepsAfter_putBack (keeps_pure fun _ _ => trivial)

def topLevelWith? (nested : Reader (Option Statement)) : Reader (Option Statement) := do
  if (← get).tokens.exhausted then
    return none
  let block ← blockWith nested
  strayBranch
  return some block

theorem keeps_topLevelWith? (h : KeepsStatements source nested) :
    Keeps source known (topLevelWith? nested) fun names found =>
      ∀ block ∈ found, block.WellFormed names := by
  refine keeps_get.andThen fun reading => ?_
  split
  · exact keeps_pure fun _ _ => by simp
  · refine (keeps_blockWith h).bind fun block _ _ hblock =>
      keeps_strayBranch.bind fun _ _ hnames _ => keeps_pure ?_
    rintro names' hnames' _ ⟨⟩
    exact (hblock.mono hnames).mono hnames'

theorem keeps_topLevel? :
    Keeps source known topLevel? fun names found => ∀ block ∈ found, block.WellFormed names :=
  keeps_topLevelWith? keeps_statement?

theorem keeps_routineBody : Keeps source known routineBody Statement.WellFormed :=
  (keeps_many (fun hnames h => h.mono hnames) keeps_topLevel?).bind fun _ _ _ hblocks =>
    keeps_pure fun _ hnames => (Statement.wellFormed_sequence hblocks).mono hnames

end

end Reader

end ClassSelection
