import ClassSelection.Proofs.Reader.Lockstep
import ClassSelection.Proofs.Source.Tree

/-!
# What is read depends on tokens

Every reader keeps in step with itself: whatever it reads and decides depends on
the tokens, and lines only go into errors, anomalies and assignments.  The
lemmas follow the grammar from operands to whole routines.
-/

namespace ClassSelection

def Statement.Alike (first second : Statement) : Prop :=
  first.withoutLines = second.withoutLines

namespace Statement.Alike

theorem sequence {statements others : List Statement}
    (h : List.Forall₂ Statement.Alike statements others) :
    (Statement.sequence statements).Alike (Statement.sequence others) := by
  induction h with
  | nil => rfl
  | cons hfirst _ ih =>
      simp only [Statement.Alike, Statement.sequence, Statement.withoutLines] at hfirst ih ⊢
      rw [hfirst, ih]

theorem getD {found other : Option Statement} (h : Option.Rel Statement.Alike found other) :
    (found.getD .skip).Alike (other.getD .skip) := by
  cases h with
  | none => rfl
  | some h => exact h

end Statement.Alike

def BranchAlike (first second : Expr × Statement) : Prop :=
  first.1 = second.1 ∧ first.2.Alike second.2

theorem Branches.withoutLines_prepend {whens others : List (Expr × Statement)}
    {last last' : Branches} (h : List.Forall₂ BranchAlike whens others)
    (hlast : last.withoutLines = last'.withoutLines) :
    (Branches.prepend whens last).withoutLines = (Branches.prepend others last').withoutLines := by
  induction h with
  | nil => exact hlast
  | @cons first second whens others hfirst _ ih =>
      obtain ⟨hguard, hbody⟩ := hfirst
      change Branches.withoutLines (.when first.1 first.2 (Branches.prepend whens last)) =
        Branches.withoutLines (.when second.1 second.2 (Branches.prepend others last'))
      rw [Branches.withoutLines, Branches.withoutLines, hguard, hbody, ih]

namespace Reader

variable {fork : Fork}

/-! ## Guards -/

theorem lockstep_variableName? : Lockstep fork Eq variableName? variableName? := by
  refine lockstep_next.andThen fun token => ?_
  split
  · refine lockstep_accept.andThen fun taken => ?_
    split
    · refine lockstep_next.andThen fun qualifier => ?_
      split
      · exact lockstep_missing_bind
      · exact lockstep_expect.andThen fun _ => .pure rfl
    · exact .pure rfl
  · exact lockstep_putBack.andThen fun _ => .pure rfl

theorem lockstep_secondSymbol : Lockstep fork Eq secondSymbol secondSymbol := by
  refine lockstep_next.andThen fun token => ?_
  split
  · exact .pure rfl
  · exact lockstep_putBack.andThen fun _ => .pure rfl

theorem lockstep_comparator : Lockstep fork Eq comparator comparator := by
  have hlast (spelling : String) : Lockstep fork Eq
      (do throw (.invalidComparator spelling (← line)) : Reader Comparator)
      (do throw (.invalidComparator spelling (← line))) :=
    lockstep_throw_line fun _ _ => rfl
  refine lockstep_next.andThen fun token => ?_
  dsimp only
  split
  · refine lockstep_secondSymbol.andThen fun second => ?_
    split
    · exact .pure rfl
    · exact hlast _
  · rw [pure_bind]
    split
    · exact .pure rfl
    · exact hlast _

theorem lockstep_operand : Lockstep fork Eq operand operand := by
  refine lockstep_variableName?.andThen fun name => ?_
  split
  · exact .pure rfl
  · refine lockstep_next.andThen fun token => ?_
    split
    · exact lockstep_missing_bind
    · exact .pure rfl

theorem lockstep_test : Lockstep fork Eq test test := by
  have hlast (test : Test) : Lockstep fork Eq (do register test.subject; return test)
      (do register test.subject; return test) :=
    lockstep_register.andThen fun _ => .pure rfl
  refine lockstep_operand.andThen fun left => lockstep_comparator.andThen fun comparator =>
    lockstep_operand.andThen fun right => ?_
  split
  · exact hlast _
  · split
    · exact lockstep_report.andThen fun _ => hlast _
    · exact lockstep_throw_line_bind fun _ _ => rfl

theorem tracks_exprWith {probe nested : Reader Expr} (h : Tracks fork Eq probe nested nested) :
    Tracks fork Eq (exprWith probe) (exprWith nested) (exprWith nested) := by
  have hconnected (first : Expr) : Tracks fork Eq (connected probe first) (connected nested first)
      (connected nested first) := by
    refine lockstep_next.andThen fun connective => ?_
    split
    · exact h.andThen fun _ => .pure rfl
    · split
      · exact h.andThen fun _ => .pure rfl
      · exact lockstep_putBack.andThen fun _ => .pure rfl
  refine lockstep_next.andThen fun token => ?_
  dsimp only
  split
  · exact h.andThen fun inner => lockstep_expect.andThen fun _ => hconnected inner
  · split
    · exact lockstep_missing_bind
    · exact lockstep_putBack.andThen fun _ =>
        (lockstep_test.map fun _ _ htest => congrArg Expr.test htest).andThen hconnected

theorem lockstep_expr : Lockstep fork Eq expr expr := by
  have hends (s : Reading) : EndsAt exprWith expr s :=
    endsAt_of_agree expr_eq (fun _ _ _ h => agree_exprWith h) s
  exact fun s t => (hends s).tracksAt (hends s) (hends t)
    (P := fun probe nested => Tracks fork Eq probe nested nested) (.throw rfl)
    (fun _ _ h => tracks_exprWith h) (fun _ _ h => h)

/-! ## Declarations -/

theorem lockstep_proc : Lockstep fork Eq proc proc := by
  have hkind (kind : RoutineKind) : Lockstep fork Eq
      (modify fun reading => { reading with kind := some kind } : Reader Unit)
      (modify fun reading => { reading with kind := some kind }) :=
    .modify fun hst => { hst with kind := rfl }
  have hinvalid (name : String) : Lockstep fork Eq
      (do throw (.invalidRoutine name (← line)) : Reader Unit)
      (do throw (.invalidRoutine name (← line))) :=
    lockstep_throw_line fun _ _ => rfl
  refine lockstep_next.andThen fun label => ?_
  dsimp only
  split
  · refine lockstep_next.andThen fun token => ?_
    split
    · exact hkind _
    · exact hinvalid _
  · rw [pure_bind]
    split
    · exact hkind _
    · exact hinvalid _

theorem lockstep_closingText? : Lockstep fork Eq closingText? closingText? := by
  refine lockstep_next.andThen fun token => ?_
  split
  · exact .pure rfl
  · split
    · exact lockstep_missing_bind
    · exact .pure rfl

theorem lockstep_textToClose : Lockstep fork Eq textToClose textToClose :=
  (lockstep_many_eq (fun _ => agree_closingText?) lockstep_closingText?).andThen fun _ => .pure rfl

theorem lockstep_filterSection? : Lockstep fork Eq filterSection? filterSection? := by
  have hsection (f : String → FilterList → FilterList) : Lockstep fork Eq
      (do
        expect '(' "( after INCLUDE or EXCLUDE"
        let patterns ← textToClose
        return some (f patterns))
      (do
        expect '(' "( after INCLUDE or EXCLUDE"
        let patterns ← textToClose
        return some (f patterns)) :=
    lockstep_expect.andThen fun _ => lockstep_textToClose.andThen fun _ => .pure rfl
  refine lockstep_accept.andThen fun taken => ?_
  split
  · exact hsection _
  · refine lockstep_accept.andThen fun taken => ?_
    split
    · exact hsection _
    · exact .pure rfl

theorem lockstep_filtlist : Lockstep fork Eq filtlist filtlist := by
  refine lockstep_next.andThen fun name => ?_
  split
  · exact lockstep_missing_bind
  · refine (lockstep_many_eq (fun _ => agree_filterSection?) lockstep_filterSection?).andThen
      fun sections => .modify fun hst => ?_
    exact { hst with filterLists := by rw [hst.filterLists] }

/-! ## Statements -/

theorem lockstep_assignedValue : Lockstep fork Statement.Alike assignedValue assignedValue := by
  refine lockstep_next.andThen fun value => ?_
  split
  · exact lockstep_missing_bind
  · have hmark : Lockstep fork Eq
        (modify fun reading => { reading with assigned := true } : Reader Unit)
        (modify fun reading => { reading with assigned := true }) :=
      .modify fun hst => { hst with assigned := rfl }
    exact hmark.andThen fun _ => lockstep_line.bind fun _ _ _ => .pure rfl

theorem lockstep_signAndValue : Lockstep fork Statement.Alike signAndValue signAndValue := by
  refine lockstep_next.andThen fun sign => ?_
  split
  · exact lockstep_assignedValue
  · exact lockstep_missing_bind

theorem lockstep_assignment : Lockstep fork Statement.Alike assignment assignment := by
  refine lockstep_next.andThen fun target => ?_
  dsimp only
  split
  · rw [pure_bind]
    refine Tracks.get.bind fun s t hst => ?_
    rw [hst.kind]
    split
    · split
      · exact lockstep_signAndValue
      · exact lockstep_throw_line_bind fun _ _ => rfl
    · exact lockstep_signAndValue
  · exact lockstep_throw_line_bind fun _ _ => rfl

theorem lockstep_exit : Lockstep fork Statement.Alike exit exit := by
  refine lockstep_line.bind fun line line' _ => ?_
  have hlast : Lockstep fork Statement.Alike
      (do
        unless (← get).assigned do
          throw (.exitWithoutRule line)
        return Statement.exit)
      (do
        unless (← get).assigned do
          throw (.exitWithoutRule line')
        return Statement.exit) := by
    refine Tracks.get.bind fun s t hst => ?_
    rw [hst.assigned]
    split
    · exact .pure rfl
    · have hthrow : Lockstep fork (fun _ _ => False)
          (throw (.exitWithoutRule line) : Reader PUnit) (throw (.exitWithoutRule line')) :=
        .throw rfl
      exact hthrow.bind fun _ _ hfalse => hfalse.elim
  refine lockstep_accept.andThen fun taken => ?_
  split
  · refine lockstep_expect.andThen fun _ => lockstep_next.andThen fun code => ?_
    split
    · exact lockstep_missing_bind
    · exact lockstep_expect.andThen fun _ => hlast
  · exact hlast

theorem lockstep_writtenText? : Lockstep fork Eq writtenText? writtenText? := by
  refine lockstep_accept.andThen fun taken => ?_
  split
  · exact .pure rfl
  · exact .pure rfl

theorem lockstep_write : Lockstep fork Eq write write :=
  (lockstep_many_eq (fun _ => agree_writtenText?) lockstep_writtenText?).andThen fun _ => .pure rfl

theorem lockstep_whenValue {subject : String} :
    Lockstep fork Eq (whenValue subject) (whenValue subject) := by
  refine lockstep_next.andThen fun value => ?_
  split
  · exact lockstep_missing_bind
  · exact lockstep_register.andThen fun _ => .pure rfl

theorem lockstep_listedValue? {subject : String} :
    Lockstep fork Eq (listedValue? subject) (listedValue? subject) := by
  refine lockstep_accept.andThen fun taken => ?_
  split
  · exact lockstep_whenValue.andThen fun _ => .pure rfl
  · exact .pure rfl

theorem lockstep_whenValues {subject : String} :
    Lockstep fork Eq (whenValues subject) (whenValues subject) :=
  lockstep_whenValue.andThen fun _ =>
    (lockstep_many_eq (fun _ => agree_listedValue?) lockstep_listedValue?).andThen fun _ =>
      .pure rfl

theorem lockstep_selectSubject : Lockstep fork Eq selectSubject selectSubject := by
  refine lockstep_variableName?.andThen fun name => ?_
  split
  · exact .pure rfl
  · exact lockstep_next.andThen fun _ => lockstep_throw_line fun _ _ => rfl

section

variable {probe nested : Reader (Option Statement)}

/-- A reader of statements that takes a token for each statement, and a probe of it that does so,
too. -/
structure InStep (fork : Fork) (probe nested : Reader (Option Statement)) : Prop where
  takenProbe (bound : Int) : Agree bound ifSome probe probe
  taken (bound : Int) : Agree bound ifSome nested nested
  tracks : Tracks fork (Option.Rel Statement.Alike) probe nested nested

theorem tracks_blockWith (h : InStep fork probe nested) :
    Tracks fork Statement.Alike (blockWith probe) (blockWith nested) (blockWith nested) :=
  (tracks_many h.takenProbe h.taken h.tracks).map fun _ _ hstatements => .sequence hstatements

theorem tracks_conditionalWith (h : InStep fork probe nested) :
    Tracks fork Statement.Alike (conditionalWith probe) (conditionalWith nested)
      (conditionalWith nested) := by
  refine lockstep_expr.andThen fun guard => lockstep_next.andThen fun token => ?_
  dsimp only
  split
  · refine h.tracks.bind fun body body' hbody => lockstep_accept.andThen fun taken => ?_
    have hbody := Statement.Alike.getD hbody
    split
    · refine h.tracks.bind fun alternative alternative' halternative => .pure ?_
      have halternative := Statement.Alike.getD halternative
      simp only [Statement.Alike, Statement.withoutLines] at hbody halternative ⊢
      rw [hbody, halternative]
    · refine .pure ?_
      simp only [Statement.Alike, Statement.withoutLines] at hbody ⊢
      rw [hbody]
  · exact lockstep_missing_bind

theorem tracks_whenWith? (h : InStep fork probe nested) (subject : Option String) :
    Tracks fork (Option.Rel BranchAlike) (whenWith? probe subject) (whenWith? nested subject)
      (whenWith? nested subject) := by
  have hbody (guard : Expr) : Tracks fork (Option.Rel BranchAlike)
      (do
        expect ')' "closing parenthesis on WHEN"
        let body ← blockWith probe
        return some (guard, body))
      (do
        expect ')' "closing parenthesis on WHEN"
        let body ← blockWith nested
        return some (guard, body))
      (do
        expect ')' "closing parenthesis on WHEN"
        let body ← blockWith nested
        return some (guard, body)) :=
    lockstep_expect.andThen fun _ => (tracks_blockWith h).bind fun _ _ hbody =>
      .pure (.some ⟨rfl, hbody⟩)
  refine lockstep_accept.andThen fun taken => ?_
  split
  · refine lockstep_expect.andThen fun _ => ?_
    split
    · exact lockstep_whenValues.andThen hbody
    · exact lockstep_expr.andThen hbody
  · exact .pure .none

theorem tracks_branchesWith (h : InStep fork probe nested) (subject : Option String) :
    Tracks fork Statement.Alike (branchesWith probe subject) (branchesWith nested subject)
      (branchesWith nested subject) := by
  have hwhens := tracks_many (fun _ => agree_whenWith? subject (h.takenProbe _))
    (fun _ => agree_whenWith? subject (h.taken _)) (tracks_whenWith? h subject)
  have hselect {first second : Branches} (hbranches : first.withoutLines = second.withoutLines) :
      (Statement.select first).Alike (.select second) := by
    simp only [Statement.Alike, Statement.withoutLines, hbranches]
  refine hwhens.bind fun whens whens' hwhens => lockstep_accept.andThen fun taken => ?_
  split
  · refine (tracks_blockWith h).bind fun body body' hbody => .pure (hselect ?_)
    refine Branches.withoutLines_prepend hwhens ?_
    rw [Branches.withoutLines, Branches.withoutLines, hbody]
  · exact .pure (hselect (Branches.withoutLines_prepend hwhens rfl))

theorem tracks_selectWith (h : InStep fork probe nested) :
    Tracks fork Statement.Alike (selectWith probe) (selectWith nested) (selectWith nested) := by
  refine lockstep_accept.andThen fun taken => ?_
  split
  · refine lockstep_selectSubject.andThen fun subject => lockstep_expect.andThen fun _ => ?_
    rw [pure_bind, pure_bind]
    exact tracks_branchesWith h _
  · rw [pure_bind, pure_bind]
    exact tracks_branchesWith h _

theorem inStep_statementWith? (h : InStep fork probe nested) :
    InStep fork (statementWith? probe) (statementWith? nested) := by
  refine ⟨fun bound => agree_statementWith? (h.takenProbe _),
    fun bound => agree_statementWith? (h.taken _), ?_⟩
  have hsome {x y : Reader Statement} (hx : Tracks fork Statement.Alike x y y) :
      Tracks fork (Option.Rel Statement.Alike) (do return some (← x)) (do return some (← y))
        (do return some (← y)) :=
    hx.bind fun _ _ hstatement => .pure (.some hstatement)
  have hskip {x : Reader Unit} (hx : Lockstep fork Eq x x) :
      Lockstep fork (Option.Rel Statement.Alike) (do x; return some .skip)
        (do x; return some .skip) :=
    hx.andThen fun _ => .pure (.some rfl)
  have hback (token : Token) : Lockstep fork (Option.Rel Statement.Alike)
      (do putBack token; return none) (do putBack token; return none) :=
    lockstep_putBack.andThen fun _ => .pure .none
  refine lockstep_next.andThen fun token => ?_
  split
  · exact hskip lockstep_proc
  · exact hskip lockstep_filtlist
  · exact hskip lockstep_write
  · exact hsome lockstep_assignment
  · exact hsome lockstep_exit
  · refine (tracks_blockWith h).bind fun body body' hbody => .pure (.some ?_)
    simp only [Statement.Alike, Statement.withoutLines] at hbody ⊢
    rw [hbody]
  · exact hsome (tracks_conditionalWith h)
  · exact hsome (tracks_selectWith h)
  · exact .pure .none
  · exact hback token
  · exact hback token
  · split
    · exact .pure .none
    · exact hskip lockstep_report

theorem inStep_throw {e : Error} : InStep fork (throw e) (throw e) :=
  ⟨fun _ => Agree.throw, fun _ => Agree.throw, .throw rfl⟩

theorem inStep_statement? : InStep fork statement? statement? := by
  have hends (s : Reading) : EndsAt statementWith? statement? s :=
    endsAt_of_agree statement?_eq (fun _ _ _ h => agree_statementWith? h) s
  refine ⟨fun _ => agree_statement?, fun _ => agree_statement?, fun s t => ?_⟩
  exact (hends s).tracksAt (hends s) (hends t) (P := InStep fork) inStep_throw
    (fun _ _ h => inStep_statementWith? h) (fun _ _ h => h.tracks)

end

/-! ## Routines -/

theorem lockstep_strayBranch : Lockstep fork Eq strayBranch strayBranch := by
  refine lockstep_next.andThen fun token => ?_
  split
  · exact lockstep_report
  · exact lockstep_report
  · exact lockstep_putBack

theorem tracks_topLevelWith? {probe nested : Reader (Option Statement)}
    (h : InStep fork probe nested) :
    Tracks fork (Option.Rel Statement.Alike) (topLevelWith? probe) (topLevelWith? nested)
      (topLevelWith? nested) := by
  refine Tracks.get.bind fun s t hst => ?_
  rw [hst.tokens]
  split
  · exact .pure .none
  · exact (tracks_blockWith h).bind fun _ _ hblock =>
      lockstep_strayBranch.andThen fun _ => .pure (.some hblock)

variable {source other : String}

theorem tracksAt_routine {probe : Reader (Option Statement)}
    (hprobe : Progresses (Reading.Sound source) (topLevelWith? probe))
    (h : InStep fork probe statement?) :
    TracksAt fork Statement.Alike (.ofSource source) (.ofSource other)
      ((Statement.sequence <$> many (topLevelWith? probe)) (.ofSource source))
      (routineBody (.ofSource source)) (routineBody (.ofSource other)) := by
  have hsound (source : String) := Reading.sound_ofSource source
  have hblocks := (hprobe.endsAt (hsound source)).tracksAt_many
    (topLevel?_progresses.endsAt (hsound source)) (topLevel?_progresses.endsAt (hsound other))
    (tracks_topLevelWith? h)
  exact hblocks.bind fun _ _ hblocks => .pure (.sequence hblocks)

theorem lockstepAt_routineBody :
    TracksAt fork Statement.Alike (.ofSource source) (.ofSource other)
      (routineBody (.ofSource source)) (routineBody (.ofSource source))
      (routineBody (.ofSource other)) :=
  tracksAt_routine topLevel?_progresses inStep_statement?

theorem alike_routineBody (h : (Reading.ofSource source).Alike (Reading.ofSource other)) :
    EndAlike Statement.Alike (routineBody (.ofSource source)) (routineBody (.ofSource other)) :=
  lockstepAt_routineBody.endAlike h

end Reader

end ClassSelection
