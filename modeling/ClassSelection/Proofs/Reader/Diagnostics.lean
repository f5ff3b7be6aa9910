import ClassSelection.Proofs.Reader.Arising

/-!
# The lines of diagnostics

An anomaly or an error has the line on which the text that it tells of ends, with
two exceptions.  A variable on the right of a comparison and a symbol that could
begin a comparator are followed by a look at the next token, and what is wrong
with them is reported on the line of that one.
-/

namespace ClassSelection

namespace Reader

variable {source : String} {mark n : Nat} {position : Position}

/-! ## Guards -/

/-- Where the reading stands behind an operand: a variable without a qualifier is followed by a look
at the next token. -/
inductive OperandEnds (source : String) : Position → Operand → Prop
  | plain {n : Nat} {text : String} (h : (tokenAt source n).isVariable = true) :
      OperandEnds source ⟨n + 1, true⟩ ⟨text, true⟩
  | qualified {n : Nat} {text : String} (h : tokenAt source n = .punct ')') :
      OperandEnds source ⟨n + 1, false⟩ ⟨text, true⟩
  | constant {n : Nat} : OperandEnds source ⟨n + 1, false⟩ ⟨(tokenAt source n).text, false⟩

theorem diagnoses_variableName? :
    Diagnoses source mark position variableName? fun mark' position' name => mark' = mark ∧
      (name = none ∧ position' = ⟨position.count, true⟩ ∨
        ∃ text, name = some text ∧ position.count < position'.count ∧
          OperandEnds source position' ⟨text, true⟩) := by
  refine .next ?_
  split
  · rename_i hvariable
    refine .accept (fun hopen => .next ?_) fun _ => ?_
    · split
      · exact Diagnoses.missing.stop
      · refine .expect fun hclose => .pure ⟨rfl, .inr ⟨_, rfl, ?_, .qualified hclose⟩⟩
        dsimp only
        omega
    · exact .pure ⟨rfl, .inr ⟨_, rfl, Nat.lt_succ_self _, .plain hvariable⟩⟩
  · exact .putBack (.pure ⟨rfl, .inl ⟨rfl, rfl⟩⟩)

theorem reports_variableName? : Reports source variableName? := by
  intro mark position hmark
  refine diagnoses_variableName?.mono fun mark' position' name h => ?_
  obtain ⟨rfl, ⟨rfl, rfl⟩ | ⟨_, rfl, hlt, -⟩⟩ := h
  · exact hmark
  · exact hmark.trans hlt.le

theorem diagnoses_operand :
    Diagnoses source mark position operand fun mark' position' operand => mark' = mark ∧
      position.count < position'.count ∧ OperandEnds source position' operand := by
  refine diagnoses_variableName?.bind fun mark' position' name h => ?_
  obtain ⟨rfl, ⟨rfl, rfl⟩ | ⟨_, rfl, hlt, hends⟩⟩ := h
  · refine .next ?_
    split
    · exact Diagnoses.missing.stop
    · exact .pure ⟨rfl, Nat.lt_succ_self _, .constant⟩
  · exact .pure ⟨rfl, hlt, hends⟩

theorem diagnoses_secondSymbol :
    Diagnoses source mark position secondSymbol fun mark' position' second => mark' = mark ∧
      (tokenAt source position.count ∈ Grammar.closingSymbols ∧
          second = (tokenAt source position.count).text ∧
          position' = ⟨position.count + 1, false⟩ ∨
        tokenAt source position.count ∉ Grammar.closingSymbols ∧ second = "" ∧
          position' = ⟨position.count, true⟩) := by
  refine .next ?_
  split
  · rename_i hcloses
    exact .pure ⟨rfl, .inl ⟨closesComparator_iff.1 hcloses, rfl, rfl⟩⟩
  · rename_i hcloses
    rw [closesComparator_iff] at hcloses
    exact .putBack (.pure ⟨rfl, .inr ⟨hcloses, rfl, rfl⟩⟩)

theorem diagnoses_comparator :
    Diagnoses source mark position comparator fun mark' position' _ =>
      mark' = mark ∧ position.count < position'.count := by
  refine .next ?_
  dsimp only
  split
  · rename_i hopens
    rw [opensComparator_iff] at hopens
    refine diagnoses_secondSymbol.bind fun mark' position' second h => ?_
    obtain ⟨rfl, ⟨hcloses, rfl, rfl⟩ | ⟨hcloses, rfl, rfl⟩⟩ := h
    · split
      · exact .pure ⟨rfl, by dsimp only; omega⟩
      · exact .line_taken (.throw (.joinedComparator hopens hcloses))
    · split
      · exact .pure ⟨rfl, Nat.lt_succ_self _⟩
      · refine .line ?_
        rw [Position.line_stream_ahead, String.append_empty]
        exact .throw (.loneComparator hopens hcloses)
  · rename_i hopens
    rw [opensComparator_iff] at hopens
    rw [pure_bind, String.append_empty]
    split
    · exact .pure ⟨rfl, Nat.lt_succ_self _⟩
    · exact .line_taken (.throw (.invalidComparator hopens))

theorem diagnoses_judged {left right : Operand} {comparator : Comparator} {first : Nat}
    {second third : List Token} (hmark : mark < position.count)
    (hleft : Grammar.Operand Present ((Token.lex source.toList).drop first) second left)
    (hsign : Grammar.Sign second third comparator)
    (hright : Grammar.Operand Present third ((Token.lex source.toList).drop position.count) right)
    (hends : OperandEnds source position right) :
    Diagnoses source mark position (judged left comparator right) Behind := by
  have hlast {mark : Nat} (hmark : mark ≤ position.count) (test : Test) :
      Diagnoses source mark position (do register test.subject; return test) Behind :=
    (Reports.bind (.register _) fun _ => .pure test) mark position hmark
  by_cases hvariable : left.isVariable = true
  · rw [judged, if_pos hvariable]
    exact hlast hmark.le _
  · have hkind : right.isVariable = true → ∃ written,
        Grammar.Pair Present ((Token.lex source.toList).drop first)
          ((Token.lex source.toList).drop position.count) written ∧ written.anomaly? =
            some (.swappedOperands left.text comparator.mnemonic right.text) :=
      fun h => ⟨_, .mk hleft hsign hright (.inr h), if_neg hvariable⟩
    rw [judged, if_neg hvariable]
    cases hends with
    | plain h =>
        obtain ⟨written, hpair, hkind⟩ := hkind rfl
        refine .report (Nat.lt_succ_iff.1 hmark) ?_ (hlast (Nat.le_refl _) _)
        rw [Position.line_stream_ahead]
        exact .swappedPlain hpair hkind h
    | qualified h =>
        obtain ⟨written, hpair, hkind⟩ := hkind rfl
        exact .report_taken (Nat.lt_succ_iff.1 hmark) (.swappedQualified hpair hkind h)
          (hlast (Nat.le_refl _) _)
    | constant =>
        exact .line_taken (Diagnoses.throw .invalidComparison).stop

theorem reports_test : Reports source test := by
  intro mark position hmark
  refine (diagnoses_operand.form fun _ => accepts_operand).bind fun _ position₁ left h => ?_
  obtain ⟨⟨rfl, hlt, -⟩, hleft⟩ := h
  refine (diagnoses_comparator.form fun _ => accepts_comparator).bind
    fun _ position₂ comparator h => ?_
  obtain ⟨⟨rfl, hlt₁⟩, hsign⟩ := h
  refine (diagnoses_operand.form fun _ => accepts_operand).bind fun _ position₃ right h => ?_
  obtain ⟨⟨rfl, hlt₂, hends⟩, hright⟩ := h
  exact diagnoses_judged (by omega) hleft hsign hright hends

theorem reports_connected {nested : Reader Expr} (h : Reports source nested) (first : Expr) :
    Reports source (connected nested first) := by
  refine .next fun mark n hmark => ?_
  split
  · exact (h.bind fun _ => .pure _).taken hmark
  · split
    · exact (h.bind fun _ => .pure _).taken hmark
    · exact (Reports.pure first).left hmark

theorem reports_partWith {nested : Reader Expr} (h : Reports source nested) :
    Reports source (partWith nested) := by
  refine .next fun mark n hmark => ?_
  split
  · exact (h.bind fun inner => (Reports.expect _ _).bind fun _ => .pure inner).taken hmark
  · split
    · exact .missing
    · exact (reports_test.bind fun test => .pure (Expr.test test)).left hmark

theorem reports_expr : Reports source expr := by
  refine .of_levels (endsAt_of_agree expr_eq fun _ _ _ h => agree_exprWith h)
    (.pure (.test ⟨"", .eq, ""⟩)) fun nested h => ?_
  rw [exprWith_eq]
  exact (reports_partWith h).bind fun first => reports_connected h first

/-! ## Declarations -/

theorem reports_proc : Reports source proc := by
  have hkind (kind : RoutineKind) :
      Reports source (modify fun reading => { reading with kind := some kind } : Reader Unit) :=
    .modify (fun _ => rfl) fun _ => rfl
  refine .next fun mark n hmark => ?_
  dsimp only
  split
  · refine .next ?_
    split
    · exact (hkind _).taken (Nat.le_succ_of_le hmark)
    · exact .line_taken (.throw .invalidRoutine)
  · rw [pure_bind]
    split
    · exact (hkind _).taken hmark
    · exact .line_taken (.throw .invalidRoutine)

theorem reports_closingText? : Reports source closingText? := by
  refine .next fun mark n hmark => ?_
  split
  · exact (Reports.pure none).taken hmark
  · split
    · exact Diagnoses.missing.stop
    · exact (Reports.pure _).taken hmark

theorem reports_textToClose : Reports source textToClose :=
  (Reports.many reports_closingText?).bind fun _ => .pure _

theorem reports_filterSection? : Reports source filterSection? := by
  have hsection (f : String → FilterList → FilterList) : Reports source (do
      expect '(' "( after INCLUDE or EXCLUDE"
      let patterns ← textToClose
      return some (f patterns)) :=
    (Reports.expect _ _).bind fun _ => reports_textToClose.bind fun _ => .pure _
  refine (Reports.accept _).bind fun taken => ?_
  split
  · exact hsection _
  · refine (Reports.accept _).bind fun taken => ?_
    split
    · exact hsection _
    · exact .pure none

theorem reports_filtlist : Reports source filtlist := by
  refine .next fun mark n hmark => ?_
  split
  · exact Diagnoses.missing.stop
  · have hlists (list : List (FilterList → FilterList) → FilterList) : Reports source
        (do
          let sections ← many filterSection?
          modify fun reading =>
            { reading with filterLists := reading.filterLists ++ [list sections] }) :=
      (Reports.many reports_filterSection?).bind fun _ => .modify (fun _ => rfl) fun _ => rfl
    exact (hlists _).taken hmark

/-! ## Statements -/

structure SetStatement (source : String) (n : Nat) : Prop where
  target : (tokenAt source n).isVariable = true ∧
    ∃ kind, RoutineKind.ofName? (tokenAt source n).text = some kind
  sign : tokenAt source (n + 1) = .punct '=' ∨ tokenAt source (n + 1) = .word "EQ"
  value : tokenAt source (n + 2) ≠ .endOfSource

theorem diagnoses_assignedValue :
    Diagnoses source mark position assignedValue fun mark' position' statement =>
      mark' = mark ∧ position' = ⟨position.count + 1, false⟩ ∧
      tokenAt source position.count ≠ .endOfSource ∧
      statement =
        .assign (tokenAt source position.count).text (lineAt source position.count) := by
  refine .next ?_
  split
  · exact Diagnoses.missing.stop
  · rename_i hne
    refine .modify (fun _ => rfl) (fun _ => rfl) (.line_taken (.pure ?_))
    exact ⟨rfl, rfl, by simpa using hne, rfl⟩

theorem diagnoses_signAndValue
    (htarget : (tokenAt source n).isVariable = true ∧
      ∃ kind, RoutineKind.ofName? (tokenAt source n).text = some kind) :
    Diagnoses source mark ⟨n + 1, false⟩ signAndValue fun mark' position' statement =>
      mark' = mark ∧ position' = ⟨n + 3, false⟩ ∧ SetStatement source n ∧
      statement = .assign (tokenAt source (n + 2)).text (lineAt source (n + 2)) := by
  refine .next ?_
  split
  · rename_i hsign
    refine diagnoses_assignedValue.mono fun mark' position' statement h => ?_
    obtain ⟨rfl, rfl, hne, rfl⟩ := h
    exact ⟨rfl, rfl, ⟨htarget, by simpa using hsign, hne⟩, rfl⟩
  · exact Diagnoses.missing.stop

theorem diagnoses_assignment :
    Diagnoses source mark ⟨n, false⟩ assignment fun mark' position' statement =>
      mark' = mark ∧ position' = ⟨n + 3, false⟩ ∧ SetStatement source n ∧
      statement = .assign (tokenAt source (n + 2)).text (lineAt source (n + 2)) := by
  refine .next ?_
  dsimp only
  split
  · rename_i kind hkind
    have htarget : (tokenAt source n).isVariable = true ∧
        ∃ kind, RoutineKind.ofName? (tokenAt source n).text = some kind := by
      split at hkind
      · exact ⟨‹_›, kind, hkind⟩
      · cases hkind
    rw [pure_bind]
    refine .get fun reading => ?_
    split
    · split
      · exact diagnoses_signAndValue htarget
      · exact .line_taken (Diagnoses.throw .targetMismatch).stop
    · exact diagnoses_signAndValue htarget
  · exact .line_taken (Diagnoses.throw .invalidTarget).stop

theorem diagnoses_exit (hmark : mark ≤ n) (hexit : tokenAt source n = .word "EXIT") :
    Diagnoses source mark ⟨n + 1, false⟩ exit Behind := by
  have hlast {position : Position} (hposition : mark ≤ position.count)
      (h : ExitStatement source n position) : Diagnoses source mark position
        (do
          unless (← get).assigned do
            throw (.exitWithoutRule (lineAt source n))
          return Statement.exit) Behind := by
    refine .get fun reading => ?_
    split
    · exact .pure hposition
    · exact (Diagnoses.throw (.exitWithoutRule h)).stop
  refine .line_taken ?_
  refine .accept (fun hcode => .expect fun hopen => .next ?_) fun hnext => ?_
  · split
    · exact Diagnoses.missing.stop
    · rename_i hne
      refine .expect fun hclose => hlast (by dsimp only; omega) ?_
      exact .withCode hexit (eq_of_beq hcode) hopen (by simpa using hne) hclose
  · exact hlast (by dsimp only; omega) (.plain hexit (by simpa using hnext))

theorem reports_writtenText? : Reports source writtenText? := by
  refine (Reports.accept _).bind fun taken => ?_
  split
  · exact .pure _
  · exact .pure _

theorem reports_write : Reports source write :=
  (Reports.many reports_writtenText?).bind fun _ => .pure _

theorem reports_whenValue (subject : String) : Reports source (whenValue subject) := by
  refine .next fun mark n hmark => ?_
  split
  · exact Diagnoses.missing.stop
  · exact ((Reports.register _).bind fun _ => .pure _).taken hmark

theorem reports_listedValue? (subject : String) : Reports source (listedValue? subject) := by
  refine (Reports.accept _).bind fun taken => ?_
  split
  · exact (reports_whenValue subject).bind fun _ => .pure _
  · exact .pure _

theorem reports_whenValues (subject : String) : Reports source (whenValues subject) :=
  (reports_whenValue subject).bind fun _ =>
    (Reports.many (reports_listedValue? subject)).bind fun _ => .pure _

theorem reports_selectSubject : Reports source selectSubject := by
  refine reports_variableName?.bind fun name => ?_
  split
  · exact .pure _
  · exact .next fun mark n hmark => .line_taken (.throw .invalidSelect)

section

variable {nested : Reader (Option Statement)}

theorem reports_blockWith (h : Reports source nested) : Reports source (blockWith nested) :=
  (Reports.many h).bind fun _ => .pure _

theorem reports_conditionalWith (h : Reports source nested) :
    Reports source (conditionalWith nested) := by
  refine reports_expr.bind fun guard => .next fun mark n hmark => ?_
  dsimp only
  split
  · have hthen : Reports source (thenWith nested guard) := by
      refine h.bind fun body => (Reports.accept _).bind fun taken => ?_
      split
      · exact h.bind fun _ => .pure _
      · exact .pure _
    exact hthen.taken hmark
  · exact Diagnoses.missing.stop

theorem reports_whenWith? (h : Reports source nested) (subject : Option String) :
    Reports source (whenWith? nested subject) := by
  have hbody (guard : Expr) : Reports source (do
      expect ')' "closing parenthesis on WHEN"
      let body ← blockWith nested
      return some (guard, body)) :=
    (Reports.expect _ _).bind fun _ => (reports_blockWith h).bind fun _ => .pure _
  refine (Reports.accept _).bind fun taken => ?_
  split
  · refine (Reports.expect _ _).bind fun _ => ?_
    split
    · exact (reports_whenValues _).bind hbody
    · exact reports_expr.bind hbody
  · exact .pure _

theorem reports_selectWith (h : Reports source nested) : Reports source (selectWith nested) := by
  have hbranches (subject : Option String) : Reports source (branchesWith nested subject) := by
    refine (Reports.many (reports_whenWith? h subject)).bind fun whens =>
      (Reports.accept _).bind fun taken => ?_
    split
    · exact (reports_blockWith h).bind fun _ => .pure _
    · exact .pure _
  refine (Reports.accept _).bind fun taken => ?_
  split
  · exact reports_selectSubject.bind fun subject => (Reports.expect _ _).bind fun _ =>
      (Reports.pure _).bind hbranches
  · exact (Reports.pure _).bind hbranches

theorem reports_statementWith? (h : Reports source nested) :
    Reports source (statementWith? nested) := by
  have hsome {x : Reader Statement} (hx : Reports source x) :
      Reports source (do return some (← x)) :=
    hx.bind fun _ => .pure _
  have hskip {x : Reader Unit} (hx : Reports source x) :
      Reports source (do x; return some Statement.skip) :=
    hx.bind fun _ => .pure _
  refine .next fun mark n hmark => ?_
  split
  · exact (hskip reports_proc).taken hmark
  · exact (hskip reports_filtlist).taken hmark
  · exact (hskip reports_write).taken hmark
  · refine diagnoses_assignment.bind fun mark' position' _ h => .pure ?_
    obtain ⟨rfl, rfl, -⟩ := h
    exact Nat.le_add_right_of_le (Nat.le_succ_of_le hmark)
  · rename_i hkeyword
    refine (diagnoses_exit hmark (eq_word_of_keyword hkeyword)).bind fun mark' position' _ h => ?_
    exact .pure h
  · exact ((reports_blockWith h).bind fun _ => .pure _).taken hmark
  · exact (hsome (reports_conditionalWith h)).taken hmark
  · exact (hsome (reports_selectWith h)).taken hmark
  · exact (Reports.pure none).taken hmark
  · exact (Reports.pure none).left hmark
  · exact (Reports.pure none).left hmark
  · rename_i hkeyword
    split
    · exact (Reports.pure none).taken hmark
    · rename_i hne
      refine .report_taken hmark ?_ (.pure (Nat.le_refl _))
      exact .unknownKeyword (by simp [hkeyword]) (by simpa using hne)

theorem reports_statement? : Reports source statement? :=
  .of_levels (endsAt_of_agree statement?_eq fun _ _ _ h => agree_statementWith? h) (.pure none)
    fun _ => reports_statementWith?

/-! ## Routines -/

theorem reports_strayBranch : Reports source strayBranch := by
  have hreport {mark n : Nat} (hmark : mark ≤ n) {keyword : Keyword}
      (hkeyword : Keyword.ofToken? (tokenAt source n) = some keyword)
      (hbranch : keyword = .when ∨ keyword = .otherwise) :
      Diagnoses source mark ⟨n + 1, false⟩ (report (.unknownKeyword (tokenAt source n).text))
        Behind := by
    rw [← bind_pure (report _)]
    refine .report_taken hmark ?_ (.pure (Nat.le_refl _))
    refine .unknownKeyword ?_ (ne_endOfSource_of_keyword hkeyword)
    rw [hkeyword]
    rintro _ ⟨⟩
    exact hbranch
  refine .next fun mark n hmark => ?_
  split
  · rename_i hkeyword
    exact hreport hmark hkeyword (.inl rfl)
  · rename_i hkeyword
    exact hreport hmark hkeyword (.inr rfl)
  · rw [← bind_pure (putBack _)]
    exact (Reports.pure ()).left hmark

theorem reports_topLevelWith? (h : Reports source nested) :
    Reports source (topLevelWith? nested) := by
  refine Reports.get.bind fun reading => ?_
  split
  · exact .pure _
  · exact (reports_blockWith h).bind fun _ => reports_strayBranch.bind fun _ => .pure _

theorem reports_routineBody : Reports source routineBody :=
  (Reports.many (reports_topLevelWith? reports_statement?)).bind fun _ => .pure _

end

end Reader

/-! ## Lines -/

section

variable {source : String} {last : Nat} {position : Position}

/-- A comparison with a variable without a qualifier on its right: the next token has been looked at
before it is reported. -/
def Anomaly.LooksAhead (source : String) (anomaly : Anomaly) (last : Nat) : Prop :=
  (∀ keyword, anomaly.kind ≠ .unknownKeyword keyword) ∧ (tokenAt source last).isVariable = true

def Error.LooksAhead (error : Error) (position : Position) : Prop :=
  position.ahead = true ∧ ∃ found line, error = .invalidComparator found line

theorem Anomaly.Arises.line_eq_iff {anomaly : Anomaly} (h : anomaly.Arises source last) :
    anomaly.line = lineAt source last ↔
      (anomaly.LooksAhead source last → lineAt source (last + 1) = lineAt source last) := by
  cases h with
  | unknownKeyword hkeyword hne => simp [LooksAhead]
  | swappedQualified hpair hkind hclosed => simp [LooksAhead, hclosed, Token.isVariable]
  | swappedPlain hpair hkind hvariable =>
      rename_i first written kind
      have hswapped (keyword : String) : kind ≠ .unknownKeyword keyword := by
        rintro rfl
        unfold WrittenTest.anomaly? at hkind
        split at hkind <;> cases hkind
      simp [LooksAhead, hvariable, hswapped]

theorem Error.Arises.line?_eq_iff {error : Error} (h : error.Arises source last position) :
    error.line? = some (lineAt source last) ↔
      (error.LooksAhead position → lineAt source (last + 1) = lineAt source last) := by
  cases h <;> simp [Error.line?, Error.LooksAhead]

/-- The anomaly has the line on which its text ends, unless the next token has been looked at and
ends on another one. -/
structure Anomaly.Located (source : String) (anomaly : Anomaly) (last : Nat) : Prop where
  arises : anomaly.Arises source last
  line_eq_iff : anomaly.line = lineAt source last ↔
    (anomaly.LooksAhead source last → lineAt source (last + 1) = lineAt source last)

def AllLocated (source : String) (anomalies : List Anomaly) : Prop :=
  ∃ lasts : List Nat, lasts.Pairwise (· < ·) ∧
    List.Forall₂ (Anomaly.Located source) anomalies lasts

theorem Noted.allLocated {mark : Nat} {anomalies : List Anomaly} (h : Noted source mark anomalies) :
    AllLocated source anomalies := by
  suffices hlasts : ∃ lasts : List Nat, lasts.Pairwise (· < ·) ∧ (∀ last ∈ lasts, last < mark) ∧
      List.Forall₂ (Anomaly.Located source) anomalies lasts by
    obtain ⟨lasts, hordered, -, hlocated⟩ := hlasts
    exact ⟨lasts, hordered, hlocated⟩
  induction h with
  | nil => exact ⟨[], .nil, by simp, .nil⟩
  | @snoc mark last anomalies anomaly _ hlast harises ih =>
      obtain ⟨lasts, hordered, hbefore, hlocated⟩ := ih
      refine ⟨lasts ++ [last], ?_, ?_, ?_⟩
      · rw [List.pairwise_append]
        refine ⟨hordered, List.pairwise_singleton _ _, fun earlier hearlier later hlater => ?_⟩
        obtain rfl := List.mem_singleton.1 hlater
        exact (hbefore earlier hearlier).trans_le hlast
      · intro earlier hearlier
        rcases List.mem_append.1 hearlier with hearlier | hearlier
        · exact (hbefore earlier hearlier).trans_le (Nat.le_succ_of_le hlast)
        · obtain rfl := List.mem_singleton.1 hearlier
          exact Nat.lt_succ_self _
      · exact List.rel_append hlocated (.cons ⟨harises, harises.line_eq_iff⟩ .nil)

open Reader (routineBody reports_routineBody)

/-- Every anomaly, and the error on which a reading ends, has the line on which the text that it
tells of ends: the unknown keyword, the right operand, the comparator, the token that was found or
the EXIT.  The exceptions are a variable without a qualifier on the right of a comparison and a
lone symbol for a comparator, which have the line of the next token. -/
theorem lines_of_diagnostics (mode : CombineMode) (source : String) :
    match DecisionTable.ofSource mode source with
    | .ok table => AllLocated source table.anomalies
    | .error error => ∃ last position s, routineBody (.ofSource source) = .error error s ∧
        s.tokens = position.stream source ∧ error.Arises source last position ∧
        (error.line? = some (lineAt source last) ↔
          (error.LooksAhead position → lineAt source (last + 1) = lineAt source last)) ∧
        (tokenAt source last = .endOfSource →
          lineAt source last = 1 + source.toList.count '\n') ∧
        AllLocated source s.anomalies := by
  have hbody : Reader.Reports source routineBody := reports_routineBody
  obtain ⟨hok, herror⟩ := hbody 0 ⟨0, false⟩ (Nat.le_refl _) _ (Reading.stands_ofSource source)
  rw [DecisionTable.ofSource, Routine.parse]
  cases hrun : routineBody (.ofSource source) with
  | ok body s =>
      obtain ⟨mark, position, hs, -⟩ := hok body s hrun
      dsimp only
      change match DecisionTable.ofRoutine mode _ with
        | .ok table => AllLocated source table.anomalies
        | .error _ => _
      rw [DecisionTable.ofRoutine_eq]
      exact hs.noted.allLocated
  | error error s =>
      obtain ⟨last, mark, position, harises, hs⟩ := herror error s hrun
      exact ⟨last, position, s, rfl, hs.tokens, harises, harises.line?_eq_iff, lineAt_of_end,
        hs.noted.allLocated⟩

/-- `&USER` ends on line 2, and the comparison is reported on line 3. -/
example :
    let source := "PROC STORCLAS\nIF 'BOB' = &USER\nTHEN SET &STORCLAS = 'X'\nEND"
    (DecisionTable.ofSource .merge source).map (·.anomalies) =
        .ok [⟨3, .swappedOperands "'BOB'" "EQ" "&USER"⟩] ∧
      tokenAt source 5 = .word "&USER" ∧ lineAt source 5 = 2 := by
  decide +kernel

end

end ClassSelection
