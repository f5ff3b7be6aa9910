import ClassSelection.Proofs.Reader.Accepts

/-!
# Guards are read by their grammar

The form of each reader of `ClassSelection.Reader.Guard` is a phrase of the
grammar, so `expr` accepts the conditions that no connective follows, and
nothing else.
-/

namespace ClassSelection

namespace Reader

variable {α β γ : Type} {bound : Nat}

theorem missing_bind_ne_ok {expected : String} {found : Token} {f : α → Reader β} {s s' : Reading}
    {b : β} : (missing expected found >>= f) s ≠ .ok b s' := by
  intro h
  cases h

theorem accepts_expect {symbol : Char} {expected : String} :
    Accepts bound (expect symbol expected) id
      (Quiet fun before after _ => before = .punct symbol :: after) := by
  have hlater (token : Token) (_ : token ≠ .endOfSource) : Accepts (bound - 1)
      (do unless token == .punct symbol do missing expected token) id
      (Quiet fun before after (_ : Unit) => token = .punct symbol ∧ after = before) := by
    by_cases htoken : token = .punct symbol
    · rw [if_pos (by simp [htoken])]
      exact (Accepts.pure rfl).congr fun _ _ _ _ => by simp [Quiet, Blank, htoken]
    · rw [if_neg (by simp [htoken])]
      exact (Accepts.never fun _ _ _ h => by cases h).congr fun _ _ _ _ => by simp [Quiet, htoken]
  have hexpect : Accepts bound (expect symbol expected) id _ :=
    Accepts.next hlater fun s a s' h => by cases h
  refine hexpect.congr fun before after _ tests => ⟨?_, ?_⟩
  · rintro ⟨_, _, rfl, _, ⟨rfl, rfl⟩, rfl⟩
    exact ⟨rfl, rfl⟩
  · rintro ⟨rfl, rfl⟩
    exact ⟨_, _, rfl, by simp, ⟨rfl, rfl⟩, rfl⟩

theorem accepts_accept {wanted : Token → Bool} {f : Bool → Reader α} {view : α → γ}
    {taken left : Form γ} (hend : wanted .endOfSource = false)
    (htaken : Accepts (bound - 1) (f true) view taken) (hleft : Accepts bound (f false) view left) :
    Accepts bound (accept wanted >>= f) view fun before after value tests =>
      (∃ token middle, before = token :: middle ∧ wanted token = true ∧
        taken middle after value tests) ∨
      (wanted (upcoming before) = false ∧ left before after value tests) := by
  rw [accept, bind_assoc]
  refine Accepts.peek hend (fun token htoken => ?_) (fun token htoken => ?_) hleft
  · rw [if_pos htoken, pure_bind]
    exact htaken
  · rw [if_neg (by simp [htoken]), bind_assoc]
    simp only [pure_bind]

/-! ## Operands -/

abbrev Present (token : Token) : Prop := token ≠ .endOfSource

def qualified (name : String) : Reader (Option String) := do
  let qualifier ← next
  if qualifier == .endOfSource then
    missing "variable qualifier" qualifier
  expect ')' "closing parenthesis"
  return some (name ++ "(" ++ qualifier.text ++ ")")

theorem accepts_qualified (name : String) : Accepts bound (qualified name) id
    (Quiet fun before after found => ∃ qualifier, Present qualifier ∧
      before = qualifier :: .punct ')' :: after ∧
      found = some (name ++ "(" ++ qualifier.text ++ ")")) := by
  have hlater (qualifier : Token) (hne : qualifier ≠ .endOfSource) : Accepts (bound - 1)
      (do
        if qualifier == .endOfSource then
          missing "variable qualifier" qualifier
        expect ')' "closing parenthesis"
        return some (name ++ "(" ++ qualifier.text ++ ")")) id
      (Quiet fun before after found => before = .punct ')' :: after ∧
        found = some (name ++ "(" ++ qualifier.text ++ ")")) := by
    rw [if_neg (by simp [hne])]
    refine (accepts_expect.andThen fun _ => .pure rfl).congr
      fun before after found tests => ⟨?_, ?_⟩
    · rintro ⟨_, _, rfl, ⟨rfl, rfl⟩, rfl⟩
      exact ⟨⟨rfl, rfl⟩, rfl⟩
    · rintro ⟨⟨rfl, rfl⟩, rfl⟩
      exact ⟨_, (), rfl, ⟨rfl, rfl⟩, rfl⟩
  have hqualified : Accepts bound (qualified name) id _ :=
    Accepts.next hlater fun s a s' h => missing_bind_ne_ok h
  refine hqualified.congr fun before after found tests => ⟨?_, ?_⟩
  · rintro ⟨qualifier, _, rfl, hne, ⟨rfl, rfl⟩, rfl⟩
    exact ⟨⟨qualifier, hne, rfl, rfl⟩, rfl⟩
  · rintro ⟨⟨qualifier, hne, rfl, rfl⟩, rfl⟩
    exact ⟨qualifier, _, rfl, hne, ⟨rfl, rfl⟩, rfl⟩

theorem accepts_variableName? : Accepts bound variableName? id (Quiet fun before after name =>
    (∃ text, name = some text ∧ Grammar.Variable Present before after text) ∨
      (name = none ∧ after = before ∧ (upcoming before).isVariable = false)) := by
  have htaken (token : Token) (htoken : token.isVariable = true) : Accepts (bound - 1)
      (do
        unless token.isVariable do
          putBack token
          return none
        if ← accept (· == .punct '(') then
          qualified token.text
        else
          return some token.text) id
      (Quiet fun before after name => ∃ text, name = some text ∧
        Grammar.Variable Present (token :: before) after text) := by
    rw [if_pos htoken]
    refine (accepts_accept (f := fun taken => if taken then qualified token.text else _) rfl
      (accepts_qualified token.text) (.pure rfl)).congr fun before after name tests => ⟨?_, ?_⟩
    · rintro (⟨_, _, rfl, hopen, ⟨qualifier, hne, rfl, rfl⟩, rfl⟩ | ⟨hnext, ⟨rfl, rfl⟩, rfl⟩)
      · obtain rfl := eq_of_beq hopen
        exact ⟨⟨_, rfl, .qualified htoken hne⟩, rfl⟩
      · exact ⟨⟨_, rfl, .plain htoken (by simpa using hnext)⟩, rfl⟩
    · rintro ⟨⟨_, rfl, h⟩, rfl⟩
      cases h with
      | plain _ hnext => exact .inr ⟨by simpa using hnext, ⟨rfl, rfl⟩, rfl⟩
      | qualified _ hne => exact .inl ⟨_, _, rfl, rfl, ⟨_, hne, rfl, rfl⟩, rfl⟩
  have hname : Accepts bound variableName? id _ :=
    Accepts.peek rfl htaken (fun token htoken => if_neg (by simp [htoken])) (.pure rfl)
  refine hname.congr fun before after name tests => ⟨?_, ?_⟩
  · rintro (⟨token, middle, rfl, htoken, ⟨text, rfl, h⟩, rfl⟩ | ⟨hnext, ⟨rfl, rfl⟩, rfl⟩)
    · exact ⟨.inl ⟨text, rfl, h⟩, rfl⟩
    · exact ⟨.inr ⟨rfl, rfl, hnext⟩, rfl⟩
  · rintro ⟨⟨text, rfl, h⟩ | ⟨rfl, rfl, hnext⟩, rfl⟩
    · cases h with
      | plain htoken hnext => exact .inl ⟨_, _, rfl, htoken, ⟨_, rfl, .plain htoken hnext⟩, rfl⟩
      | qualified htoken hne => exact .inl ⟨_, _, rfl, htoken, ⟨_, rfl, .qualified htoken hne⟩, rfl⟩
    · exact .inr ⟨hnext, ⟨rfl, rfl⟩, rfl⟩

def constant : Reader Operand := do
  let token ← next
  if token == .endOfSource then
    missing "comparison operand" token
  return ⟨token.text, false⟩

theorem accepts_constant : Accepts bound constant id (Quiet fun before after operand =>
    ∃ token, Present token ∧ before = token :: after ∧ operand = ⟨token.text, false⟩) := by
  have hlater (token : Token) (hne : token ≠ .endOfSource) : Accepts (bound - 1)
      (do
        if token == .endOfSource then
          missing "comparison operand" token
        return (⟨token.text, false⟩ : Operand)) id (Quiet (Blank ⟨token.text, false⟩)) := by
    rw [if_neg (by simp [hne])]
    exact .pure rfl
  have hconstant : Accepts bound constant id _ :=
    Accepts.next hlater fun s a s' h => missing_bind_ne_ok h
  refine hconstant.congr fun before after operand tests => ⟨?_, ?_⟩
  · rintro ⟨token, _, rfl, hne, ⟨rfl, rfl⟩, rfl⟩
    exact ⟨⟨token, hne, rfl, rfl⟩, rfl⟩
  · rintro ⟨⟨token, hne, rfl, rfl⟩, rfl⟩
    exact ⟨token, _, rfl, hne, ⟨rfl, rfl⟩, rfl⟩

theorem accepts_operand : Accepts bound operand id (Quiet (Grammar.Operand Present)) := by
  refine Accepts.congr (x := operand) (accepts_variableName?.andThen
    (F := fun name => Quiet fun before after operand =>
      (∃ text, name = some text ∧ after = before ∧ operand = ⟨text, true⟩) ∨
        (name = none ∧ ∃ token, Present token ∧ before = token :: after ∧
          operand = ⟨token.text, false⟩)) fun name => ?_)
    fun before after operand tests => ⟨?_, ?_⟩
  · split
    · exact (Accepts.pure rfl).congr fun _ _ _ _ => by simp [Quiet, Blank]
    · exact accepts_constant.congr fun _ _ _ _ => by simp [Quiet]
  · rintro ⟨middle, name, ⟨text, rfl, h⟩ | ⟨rfl, rfl, hconstant⟩, hrest, rfl⟩
    · obtain ⟨_, hname, rfl, rfl⟩ | ⟨hname, -⟩ := hrest
      · cases hname
        exact ⟨.named h, rfl⟩
      · cases hname
    · obtain ⟨_, hname, -⟩ | ⟨-, token, hne, rfl, rfl⟩ := hrest
      · cases hname
      · exact ⟨.constant hconstant hne, rfl⟩
  · rintro ⟨h, rfl⟩
    cases h with
    | named h => exact ⟨after, _, .inl ⟨_, rfl, h⟩, .inl ⟨_, rfl, rfl, rfl⟩, rfl⟩
    | constant hconstant hne =>
        exact ⟨_, none, .inr ⟨rfl, rfl, hconstant⟩, .inr ⟨rfl, _, hne, rfl, rfl⟩, rfl⟩

/-! ## Comparators -/

theorem opensComparator_iff {token : Token} :
    opensComparator token = true ↔ token ∈ Grammar.openingSymbols := by
  simp [opensComparator, Grammar.openingSymbols, or_assoc]

theorem closesComparator_iff {token : Token} :
    closesComparator token = true ↔ token ∈ Grammar.closingSymbols := by
  simp [closesComparator, Grammar.closingSymbols, or_assoc]

theorem accepts_secondSymbol :
    Accepts bound secondSymbol id (Quiet fun before after text =>
      (∃ token ∈ Grammar.closingSymbols, before = token :: after ∧ text = token.text) ∨
        (upcoming before ∉ Grammar.closingSymbols ∧ after = before ∧ text = "")) := by
  have hsecond : Accepts bound secondSymbol id _ :=
    Accepts.peek rfl (fun token htoken => by rw [if_pos htoken]; exact .pure rfl)
      (fun token htoken => if_neg (by simp [htoken])) (.pure rfl)
  refine hsecond.congr fun before after text tests => ⟨?_, ?_⟩
  · rintro (⟨token, _, rfl, htoken, ⟨rfl, rfl⟩, rfl⟩ | ⟨hnext, ⟨rfl, rfl⟩, rfl⟩)
    · exact ⟨.inl ⟨token, closesComparator_iff.1 htoken, rfl, rfl⟩, rfl⟩
    · exact ⟨.inr ⟨by simp [← closesComparator_iff, hnext], rfl, rfl⟩, rfl⟩
  · rintro ⟨⟨token, htoken, rfl, rfl⟩ | ⟨hnext, rfl, rfl⟩, rfl⟩
    · exact .inl ⟨token, _, rfl, closesComparator_iff.2 htoken, ⟨rfl, rfl⟩, rfl⟩
    · exact .inr ⟨by simpa [← closesComparator_iff] using hnext, ⟨rfl, rfl⟩, rfl⟩

def Spelled (spelling : String) : Form Comparator :=
  Quiet fun before after comparator =>
    after = before ∧ Comparator.ofSpelling? spelling = some comparator

theorem sign_cons_iff_of_not_mem {token : Token} {before after : List Token}
    {comparator : Comparator} (h : token ∉ Grammar.openingSymbols) :
    Grammar.Sign (token :: before) after comparator ↔
      after = before ∧ Comparator.ofSpelling? token.text = some comparator := by
  constructor
  · intro hsign
    cases hsign with
    | single hspelled _ => exact ⟨rfl, hspelled⟩
    | joined hfirst _ _ => exact absurd hfirst h
  · rintro ⟨rfl, hspelled⟩
    exact .single hspelled fun hopening => absurd hopening h

theorem sign_cons_iff_of_mem {token : Token} {before after : List Token} {comparator : Comparator}
    (h : token ∈ Grammar.openingSymbols) :
    Grammar.Sign (token :: before) after comparator ↔ ∃ middle second,
      ((∃ symbol ∈ Grammar.closingSymbols, before = symbol :: middle ∧ second = symbol.text) ∨
        (upcoming before ∉ Grammar.closingSymbols ∧ middle = before ∧ second = "")) ∧
      after = middle ∧ Comparator.ofSpelling? (token.text ++ second) = some comparator := by
  constructor
  · intro hsign
    cases hsign with
    | single hspelled hnext =>
        exact ⟨_, "", .inr ⟨hnext h, rfl, rfl⟩, rfl, by simpa using hspelled⟩
    | joined _ hsecond hspelled =>
        exact ⟨_, _, .inl ⟨_, hsecond, rfl, rfl⟩, rfl, hspelled⟩
  · rintro ⟨_, _, ⟨second, hsecond, rfl, rfl⟩ | ⟨hnext, rfl, rfl⟩, rfl, hspelled⟩
    · exact .joined h hsecond hspelled
    · exact .single (by simpa using hspelled) fun _ => hnext

theorem accepts_comparator : Accepts bound comparator id (Quiet Grammar.Sign) := by
  have hspelled {spelling : String} {comparator : Comparator}
      (h : Comparator.ofSpelling? spelling = some comparator) :
      Accepts (bound - 1) (Pure.pure comparator : Reader Comparator) id (Spelled spelling) :=
    (Accepts.pure rfl).congr fun _ _ _ _ => by simp [Spelled, Quiet, Blank, h, eq_comm]
  have hunknown {spelling : String} (h : Comparator.ofSpelling? spelling = none) :
      Accepts (bound - 1) (do throw (.invalidComparator spelling (← line)) : Reader Comparator) id
        (Spelled spelling) :=
    (Accepts.never fun _ _ _ h => by cases h).congr fun _ _ _ _ => by simp [Spelled, Quiet, h]
  refine Accepts.congr (x := comparator) (Accepts.next
    (F := fun token => Quiet fun before after => Grammar.Sign (token :: before) after)
    (fun token _ => ?_) fun s a s' h => ?_) fun before after comparator tests => ⟨?_, ?_⟩
  · dsimp only
    split
    · rename_i hopens
      rw [opensComparator_iff] at hopens
      refine (accepts_secondSymbol.andThen (F := fun second => Spelled (token.text ++ second))
        fun second => ?_).congr fun before after comparator tests => ?_
      · split
        · rename_i h
          exact hspelled h
        · rename_i h
          exact hunknown h
      · simp only [Quiet, Spelled, sign_cons_iff_of_mem hopens, ← and_assoc, exists_and_right]
    · rename_i hopens
      rw [opensComparator_iff] at hopens
      rw [pure_bind, String.append_empty]
      refine (?_ : Accepts (bound - 1) _ id (Spelled token.text)).congr
        fun before after comparator tests => ?_
      · split
        · rename_i h
          exact hspelled h
        · rename_i h
          exact hunknown h
      · simp only [Quiet, Spelled, sign_cons_iff_of_not_mem hopens]
  · cases h
  · rintro ⟨token, _, rfl, -, h, rfl⟩
    exact ⟨h, rfl⟩
  · rintro ⟨h, rfl⟩
    have hne {rest : List Token} : ¬Grammar.Sign (.endOfSource :: rest) after comparator := by
      rintro (⟨hspelled, -⟩ | ⟨hfirst, -, -⟩)
      · cases hspelled
      · simp [Grammar.openingSymbols] at hfirst
    cases before with
    | nil => cases h
    | cons token rest => exact ⟨token, rest, rfl, fun heq => hne (heq ▸ h), h, rfl⟩

/-! ## Comparisons -/

def judged (left : Operand) (comparator : Comparator) (right : Operand) : Reader Test := do
  let test ←
    if left.isVariable then
      pure ⟨left.text, comparator, right.text⟩
    else if right.isVariable then
      report (.swappedOperands left.text comparator.mnemonic right.text)
      pure ⟨right.text, comparator, left.text⟩
    else
      throw (.invalidComparison left.text comparator.mnemonic right.text (← line))
  register test.subject
  return test

theorem accepts_judged (left : Operand) (comparator : Comparator) (right : Operand) :
    Accepts bound (judged left comparator right) id fun before after test tests =>
      after = before ∧ (left.isVariable = true ∨ right.isVariable = true) ∧
        test = WrittenTest.test ⟨left, comparator, right⟩ ∧
        tests = [⟨left, comparator, right⟩] := by
  by_cases hleft : left.isVariable = true
  · have hrun (s : Reading) : ∃ s', judged left comparator right s =
        .ok (WrittenTest.test ⟨left, comparator, right⟩) s' ∧ s'.tokens = s.tokens ∧
        s.Gains s' [⟨left, comparator, right⟩] := by
      have htest : WrittenTest.test ⟨left, comparator, right⟩ =
          ⟨left.text, comparator, right.text⟩ := if_pos hleft
      refine ⟨{ s with registry := (s.registry.add left.text).2 }, ?_, rfl, ?_⟩
      · rw [judged, if_pos hleft, htest]
        rfl
      · exact ⟨by simp [htest], by simp [WrittenTest.anomaly?, hleft], rfl, rfl, rfl⟩
    exact (Accepts.of_run hrun).congr fun _ _ _ _ => by simp [hleft]
  · by_cases hright : right.isVariable = true
    · have hrun (s : Reading) : ∃ s', judged left comparator right s =
          .ok (WrittenTest.test ⟨left, comparator, right⟩) s' ∧ s'.tokens = s.tokens ∧
          s.Gains s' [⟨left, comparator, right⟩] := by
        have htest : WrittenTest.test ⟨left, comparator, right⟩ =
            ⟨right.text, comparator, left.text⟩ := if_neg hleft
        let kind := AnomalyKind.swappedOperands left.text comparator.mnemonic right.text
        refine ⟨{ s with
          registry := (s.registry.add right.text).2
          anomalies := s.anomalies ++ [⟨s.tokens.line, kind⟩] }, ?_, rfl, ?_⟩
        · rw [judged, if_neg hleft, if_pos hright, htest]
          rfl
        · exact ⟨by simp [htest], by simp [WrittenTest.anomaly?, hleft, kind], rfl, rfl, rfl⟩
      exact (Accepts.of_run hrun).congr fun _ _ _ _ => by simp [hright]
    · have hnever (s : Reading) (test : Test) (s' : Reading) :
          judged left comparator right s ≠ .ok test s' := by
        rw [judged, if_neg hleft, if_neg hright]
        exact fun h => by cases h
      exact (Accepts.never hnever).congr fun _ _ _ _ => by simp [hleft, hright]

theorem accepts_test : Accepts bound test id fun before after test tests =>
    ∃ written, Grammar.Pair Present before after written ∧ test = written.test ∧
      tests = [written] := by
  have htest : Accepts bound test id _ := accepts_operand.andThen fun left =>
    accepts_comparator.andThen fun comparator => accepts_operand.andThen fun right =>
      accepts_judged left comparator right
  refine htest.congr fun before after test tests => ⟨?_, ?_⟩
  · rintro ⟨_, left, hleft, _, comparator, hsign, _, right, hright, rfl, hvariable, rfl, rfl⟩
    exact ⟨_, .mk hleft hsign hright hvariable, rfl, rfl⟩
  · rintro ⟨_, ⟨hleft, hsign, hright, hvariable⟩, rfl, rfl⟩
    exact ⟨_, _, hleft, _, _, hsign, _, _, hright, rfl, hvariable, rfl, rfl⟩

/-! ## Conditions -/

def partWith (nested : Reader Expr) : Reader Expr := do
  let token ← next
  if token == .punct '(' then
    let inner ← nested
    expect ')' "closing parenthesis"
    return inner
  else if token == .punct ')' then
    missing "condition" token
  else
    putBack token
    .test <$> test

def isParenthesis (token : Token) : Bool :=
  token == .punct '(' || token == .punct ')'

theorem exprWith_eq (nested : Reader Expr) :
    exprWith nested = partWith nested >>= connected nested := by
  rw [exprWith, partWith, bind_assoc]
  refine bind_congr fun token => ?_
  by_cases hopen : token == .punct '('
  · simp only [hopen, if_true, bind_assoc, pure_bind]
    rfl
  · by_cases hclose : token == .punct ')'
    · simp only [hopen, hclose, if_true, if_false, Bool.false_eq_true]
      rfl
    · simp only [hopen, hclose, if_false, Bool.false_eq_true, bind_assoc]
      rfl

section

variable {mode : CombineMode} {nested : Reader Expr}

/-- The conditions that the readers take: those that no connective follows. -/
def Taken (mode : CombineMode) : Form Alternatives :=
  fun before after alternatives tests =>
    Grammar.Condition Present mode before after alternatives tests ∧ Grammar.Ended after

theorem accepts_partWith (h : Accepts (bound - 1) nested (Expr.alternatives mode) (Taken mode)) :
    Accepts bound (partWith nested) (Expr.alternatives mode) (Grammar.Part Present mode) := by
  have hgroup : Accepts (bound - 1)
      (do let inner ← nested; expect ')' "closing parenthesis"; return inner)
      (Expr.alternatives mode) fun before after alternatives tests =>
        Grammar.Condition Present mode before (.punct ')' :: after) alternatives tests := by
    refine (h.bind fun inner value hvalue => accepts_expect.andThen fun _ => .pure hvalue).congr
      fun before after alternatives tests => ⟨?_, ?_⟩
    · rintro ⟨_, _, tests, _, ⟨hcondition, -⟩, ⟨_, _, rfl, ⟨rfl, rfl⟩, rfl⟩, rfl⟩
      rwa [List.append_nil]
    · intro hcondition
      have hended : Grammar.Ended (.punct ')' :: after) := by
        simp [Grammar.Ended, Grammar.conjunctions, Grammar.disjunctions]
      exact ⟨_, _, tests, [], ⟨hcondition, hended⟩, ⟨_, (), rfl, ⟨rfl, rfl⟩, rfl⟩, by simp⟩
  have htest : Accepts bound (Expr.test <$> test) (Expr.alternatives mode) _ :=
    accepts_test.map (h := fun test => [.single test]) fun _ => rfl
  have hend : isParenthesis .endOfSource = false := rfl
  refine Accepts.congr (x := partWith nested) (Accepts.peek
    (F := fun token before after alternatives tests => token = .punct '(' ∧
      Grammar.Condition Present mode before (.punct ')' :: after) alternatives tests)
    hend (fun token htoken => ?_) (fun token htoken => ?_) htest)
    fun before after alternatives tests => ⟨?_, ?_⟩
  · by_cases hopen : token = .punct '('
    · rw [if_pos (by simp [hopen])]
      exact hgroup.congr fun _ _ _ _ => by simp [hopen]
    · rw [isParenthesis, Bool.or_eq_true] at htoken
      rw [if_neg (by simp [hopen]), if_pos (htoken.resolve_left (by simp [hopen]))]
      exact (Accepts.never fun _ _ _ h => by cases h).congr fun _ _ _ _ => by simp [hopen]
  · rw [isParenthesis, Bool.or_eq_false_iff] at htoken
    rw [if_neg (by simp [htoken]), if_neg (by simp [htoken])]
  · rintro (⟨_, _, rfl, -, rfl, hcondition⟩ | ⟨hnext, _, ⟨written, hpair, rfl, rfl⟩, rfl⟩)
    · exact .group hcondition
    · rw [isParenthesis, Bool.or_eq_false_iff, beq_eq_false_iff_ne, beq_eq_false_iff_ne] at hnext
      exact .pair hnext.1 hnext.2 hpair
  · intro hpart
    cases hpart with
    | pair hopen hclose hpair =>
        exact .inr ⟨by simp [isParenthesis, hopen, hclose], _, ⟨_, hpair, rfl, rfl⟩, rfl⟩
    | group hcondition => exact .inl ⟨_, _, rfl, rfl, rfl, hcondition⟩

/-- What stands after the first part of a condition, and what becomes of the part. -/
def Connected (mode : CombineMode) (first : Alternatives) : Form Alternatives :=
  fun before after alternatives tests =>
    (Grammar.Ended before ∧ after = before ∧ alternatives = first ∧ tests = []) ∨
      ∃ connective middle right, before = connective :: middle ∧
        Taken mode middle after right tests ∧
        (connective ∈ Grammar.conjunctions ∧ alternatives = mode.combine first right ∨
          connective ∈ Grammar.disjunctions ∧ alternatives = first ++ right)

theorem conjunction_iff {token : Token} :
    (token == .word "AND" || token == .word "&&") = true ↔ token ∈ Grammar.conjunctions := by
  simp [Grammar.conjunctions]

theorem disjunction_iff {token : Token} :
    (token == .word "OR" || token == .punct '|') = true ↔ token ∈ Grammar.disjunctions := by
  simp [Grammar.disjunctions]

def isConnective (token : Token) : Bool :=
  (token == .word "AND" || token == .word "&&") || (token == .word "OR" || token == .punct '|')

theorem isConnective_iff {token : Token} :
    isConnective token = true ↔
      token ∈ Grammar.conjunctions ∨ token ∈ Grammar.disjunctions := by
  rw [isConnective, Bool.or_eq_true, conjunction_iff, disjunction_iff]

theorem isConnective_upcoming_eq_false_iff {rest : List Token} :
    isConnective (upcoming rest) = false ↔ Grammar.Ended rest := by
  rw [← Bool.not_eq_true, isConnective_iff, not_or, Grammar.Ended]

theorem not_mem_disjunctions {token : Token} (h : token ∈ Grammar.conjunctions) :
    token ∉ Grammar.disjunctions := by
  simp only [Grammar.conjunctions, Grammar.disjunctions, List.mem_cons, List.not_mem_nil,
    or_false] at h ⊢
  rcases h with rfl | rfl <;> simp

theorem accepts_connected (h : Accepts (bound - 1) nested (Expr.alternatives mode) (Taken mode))
    (first : Expr) : Accepts bound (connected nested first) (Expr.alternatives mode)
      (Connected mode (first.alternatives mode)) := by
  have hboth : Accepts (bound - 1) (Expr.both first <$> nested) (Expr.alternatives mode) _ :=
    h.map (h := mode.combine (first.alternatives mode)) fun _ => rfl
  have heither : Accepts (bound - 1) (Expr.either first <$> nested) (Expr.alternatives mode) _ :=
    h.map (h := (first.alternatives mode ++ ·)) fun _ => rfl
  have hfirst : Accepts bound (Pure.pure first : Reader Expr) (Expr.alternatives mode) _ :=
    Accepts.pure rfl
  have hend : isConnective .endOfSource = false := rfl
  refine Accepts.congr (x := connected nested first) (Accepts.peek
    (F := fun token before after alternatives tests => ∃ right,
      Taken mode before after right tests ∧
        (token ∈ Grammar.conjunctions ∧
            alternatives = mode.combine (first.alternatives mode) right ∨
          token ∈ Grammar.disjunctions ∧ alternatives = first.alternatives mode ++ right))
    hend (fun token htoken => ?_) (fun token htoken => ?_) hfirst)
    fun before after alternatives tests => ⟨?_, ?_⟩
  · by_cases hand : token ∈ Grammar.conjunctions
    · rw [if_pos (conjunction_iff.2 hand)]
      exact hboth.congr fun _ _ _ _ => by simp [hand, not_mem_disjunctions hand]
    · have hor := (isConnective_iff.1 htoken).resolve_left hand
      rw [if_neg (by rwa [conjunction_iff]), if_pos (disjunction_iff.2 hor)]
      exact heither.congr fun _ _ _ _ => by simp [hand, hor]
  · rw [isConnective, Bool.or_eq_false_iff] at htoken
    rw [if_neg (by rw [htoken.1]; simp), if_neg (by rw [htoken.2]; simp)]
  · rintro (⟨connective, middle, rfl, -, right, hright, hvalue⟩ | ⟨hnext, ⟨rfl, rfl⟩, rfl⟩)
    · exact .inr ⟨connective, middle, right, rfl, hright, hvalue⟩
    · exact .inl ⟨isConnective_upcoming_eq_false_iff.1 hnext, rfl, rfl, rfl⟩
  · rintro (⟨hended, rfl, rfl, rfl⟩ | ⟨connective, middle, right, rfl, hright, hvalue⟩)
    · exact .inr ⟨isConnective_upcoming_eq_false_iff.2 hended, ⟨rfl, rfl⟩, rfl⟩
    · have hconnective := isConnective_iff.2 (hvalue.imp And.left And.left)
      exact .inl ⟨connective, middle, rfl, hconnective, right, hright, hvalue⟩

theorem accepts_exprWith (h : Accepts (bound - 1) nested (Expr.alternatives mode) (Taken mode)) :
    Accepts bound (exprWith nested) (Expr.alternatives mode) (Taken mode) := by
  have hconnected (first : Expr) (value : Alternatives) (hvalue : first.alternatives mode = value) :
      Accepts bound (connected nested first) (Expr.alternatives mode) (Connected mode value) :=
    hvalue ▸ accepts_connected h first
  rw [exprWith_eq]
  refine ((accepts_partWith h).bind hconnected).congr
    fun before after alternatives tests => ⟨?_, ?_⟩
  · rintro ⟨_, _, _, _, hpart, hconnected, rfl⟩
    obtain ⟨hended, rfl, rfl, rfl⟩ | ⟨connective, _, right, rfl, ⟨hright, hended⟩, hvalue⟩ :=
      hconnected
    · rw [List.append_nil]
      exact ⟨.part hpart, hended⟩
    · obtain ⟨hconnective, rfl⟩ | ⟨hconnective, rfl⟩ := hvalue
      · exact ⟨.both hpart hconnective hright, hended⟩
      · exact ⟨.either hpart hconnective hright, hended⟩
  · rintro ⟨hcondition, hended⟩
    cases hcondition with
    | part hpart =>
        exact ⟨_, _, tests, [], hpart, .inl ⟨hended, rfl, rfl, rfl⟩, by simp⟩
    | both hpart hconnective hright =>
        refine ⟨_, _, _, _, hpart, .inr ⟨_, _, _, rfl, ⟨hright, hended⟩, ?_⟩, rfl⟩
        exact .inl ⟨hconnective, rfl⟩
    | either hpart hconnective hright =>
        refine ⟨_, _, _, _, hpart, .inr ⟨_, _, _, rfl, ⟨hright, hended⟩, ?_⟩, rfl⟩
        exact .inr ⟨hconnective, rfl⟩

theorem accepts_expr : Accepts bound expr (Expr.alternatives mode) (Taken mode) := by
  induction bound with
  | zero => exact ⟨fun hs => absurd hs (Nat.not_lt_zero _), fun hs => absurd hs (Nat.not_lt_zero _)⟩
  | succ bound ih =>
      rw [expr_eq]
      exact accepts_exprWith ih

end

/-- A guard is read from the tokens exactly if they begin with a condition that no connective
follows; its alternatives are those of the condition, the tokens after it are left, and the reading
gains the variables and the anomalies of its comparisons. -/
theorem expr_eq_ok_iff (mode : CombineMode) (s : Reading) (alternatives : Alternatives)
    (rest : List Token) (registry : Registry) (kinds : List AnomalyKind) :
    (∃ guard s', expr s = .ok guard s' ∧ guard.alternatives mode = alternatives ∧
      s'.tokens.toList = rest ∧ s'.registry = registry ∧ s'.anomalies.map Anomaly.kind = kinds ∧
      s'.filterLists = s.filterLists ∧ s'.kind = s.kind ∧ s'.assigned = s.assigned) ↔
    ∃ tests, Grammar.Condition Present mode s.tokens.toList rest alternatives tests ∧
      Grammar.Ended rest ∧
      registry = tests.foldl (fun registry written => (registry.add written.test.subject).2)
        s.registry ∧
      kinds = s.anomalies.map Anomaly.kind ++ tests.filterMap WrittenTest.anomaly? := by
  have haccepts : Accepts (s.tokens.toList.length + 1) expr (Expr.alternatives mode) (Taken mode) :=
    accepts_expr
  constructor
  · rintro ⟨guard, s', hrun, rfl, rfl, rfl, rfl, -⟩
    obtain ⟨-, tests, ⟨hcondition, hended⟩, hgains⟩ := haccepts.sound (Nat.lt_succ_self _) hrun
    exact ⟨tests, hcondition, hended, hgains.registry, hgains.anomalies⟩
  · rintro ⟨tests, hcondition, hended, rfl, rfl⟩
    obtain ⟨guard, s', hrun, hvalue, hrest, hgains⟩ :=
      haccepts.complete (Nat.lt_succ_self _) ⟨hcondition, hended⟩
    exact ⟨guard, s', hrun, hvalue, hrest, hgains.registry, hgains.anomalies, hgains.filterLists,
      hgains.kind, hgains.assigned⟩

/-- A closing parenthesis can be a qualifier itself, as in `&X())`: without it among the qualifiers
the grammar has no condition here. -/
theorem expr_takes_closing_qualifier :
    let s := Reading.ofSource "&X()) = 1"
    (∃ guard s', expr s = .ok guard s' ∧
      guard.alternatives .merge = [.single ⟨"&X())", .eq, "1"⟩] ∧ s'.tokens.toList = []) ∧
    ¬∃ alternatives rest tests,
      Grammar.Condition (fun token => token ≠ .endOfSource ∧ token ≠ .punct ')') .merge
        s.tokens.toList rest alternatives tests ∧ Grammar.Ended rest := by
  intro s
  have htokens : s.tokens.toList =
      [.word "&X", .punct '(', .punct ')', .punct ')', .punct '=', .word "1"] := by
    decide +kernel
  rw [htokens]
  constructor
  · obtain ⟨written, hpair, htest⟩ : ∃ written, Grammar.Pair Present
        [.word "&X", .punct '(', .punct ')', .punct ')', .punct '=', .word "1"] [] written ∧
        written.test = ⟨"&X())", .eq, "1"⟩ :=
      ⟨_, .mk (.named (.qualified rfl (by decide))) (.single rfl (by decide))
        (.constant rfl (by decide)) (.inl rfl), by decide⟩
    have hcondition : Taken .merge s.tokens.toList [] [.single written.test] [written] := by
      rw [htokens]
      exact ⟨.part (.pair (by decide) (by decide) hpair), by decide, by decide⟩
    have haccepts : Accepts 7 expr (Expr.alternatives .merge) (Taken .merge) := accepts_expr
    obtain ⟨guard, s', hrun, hvalue, hrest, -⟩ :=
      haccepts.complete (by rw [htokens]; decide) hcondition
    exact ⟨guard, s', hrun, by rw [hvalue, htest], hrest⟩
  · rintro ⟨alternatives, rest, tests, hcondition, -⟩
    have hnone {after : List Token} {name : String} : ¬Grammar.Variable
        (fun token => token ≠ .endOfSource ∧ token ≠ .punct ')')
        [.word "&X", .punct '(', .punct ')', .punct ')', .punct '=', .word "1"] after name := by
      rintro (⟨-, hnext⟩ | ⟨-, -, hqualifier⟩)
      · exact hnext rfl
      · exact hqualifier rfl
    have hpart {after : List Token} {alternatives : Alternatives} {tests : List WrittenTest} :
        ¬Grammar.Part (fun token => token ≠ .endOfSource ∧ token ≠ .punct ')') .merge
          [.word "&X", .punct '(', .punct ')', .punct ')', .punct '=', .word "1"]
          after alternatives tests := by
      rintro (⟨-, -, hleft | ⟨hconstant, -⟩, -, -, -⟩)
      · exact hnone hleft
      · cases hconstant
    cases hcondition with
    | part h => exact hpart h
    | both h => exact hpart h
    | either h => exact hpart h

end Reader

end ClassSelection
