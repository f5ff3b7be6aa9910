import ClassSelection.Proofs.Reader.Reads
import ClassSelection.Proofs.Source.Select

/-!
# Heads of branches

What stands before the body of a branch is read to its last token, with a list
of values as with a guard.  A list and the guard that compares the subject with
each of its values have the same meaning and register the same variables.  The
header of a SELECT is read to its subject, whatever comes after it.
-/

namespace ClassSelection.Source

open Reader

variable {rest : List Token} {token : Token}

def compared (subject : Variable) : ListValue → List ListValue → List Token
  | value, [] => subject.tokens ++ [.punct '=', value.val]
  | value, second :: others =>
    subject.tokens ++ .punct '=' :: value.val :: .word "OR" :: compared subject second others

/-- The guard that asks without a list whether the subject is one of the values. -/
def Question.comparisons {subject : Variable} : Question (some subject) → List Token
  | .oneOf first others => compared subject first others

def whenTokens (question : List Token) : List Token :=
  .word "WHEN" :: .punct '(' :: (question ++ [.punct ')'])

/-! ## Lists of values -/

theorem reads_whenValue {subject : String} (value : ListValue) :
    Reads (whenValue subject) (value.val :: rest) rest value.val.text [subject] := by
  refine Reads.next.andThen ?_
  rw [if_neg (by simp [value.property])]
  exact Reads.register.bind (Reads.pure _)

theorem reads_listedValues {subject : String} (values : List ListValue) :
    Reads (many (listedValue? subject))
      (values.flatMap (fun value => [.punct ',', value.val]) ++ .punct ')' :: rest)
      (.punct ')' :: rest) (values.map (·.val.text)) (values.map fun _ => subject) := by
  induction values with
  | nil => exact Reads.many_nil ((Reads.accept_not rfl).andThen (Reads.pure _))
  | cons value values ih =>
      have hvalue (rest : List Token) : Reads (listedValue? subject)
          (.punct ',' :: value.val :: rest) rest (some value.val.text) [subject] :=
        (Reads.accept rfl).andThen (reads_whenValue value).map
      exact Reads.many_cons (fun _ => agree_listedValue?) (hvalue _) ih

theorem reads_whenValues {subject : String} (first : ListValue) (others : List ListValue) :
    Reads (whenValues subject)
      (first.val :: (others.flatMap (fun value => [.punct ',', value.val]) ++ .punct ')' :: rest))
      (.punct ')' :: rest) (.oneOf subject first.val.text (others.map (·.val.text)))
      (subject :: others.map fun _ => subject) :=
  (reads_whenValue first).bind (reads_listedValues others).map

/-! ## Comparisons -/

theorem reads_variableName? (v : Variable) (h : token ≠ .punct '(') :
    Reads variableName? (v.tokens ++ token :: rest) (token :: rest) (some v.text) [] := by
  obtain ⟨name, marked, qualifier⟩ := v
  refine Reads.next.andThen ?_
  rw [if_pos (by exact marked)]
  cases qualifier with
  | none => exact (Reads.accept_not (by simpa using h)).andThen (Reads.pure _)
  | some qualifier =>
      refine (Reads.accept (by simp)).andThen (Reads.next.andThen ?_)
      rw [if_neg (by simp [qualifier.property])]
      exact Reads.expect.andThen (Reads.pure _)

theorem reads_variableName?_none (h : token.isVariable = false) :
    Reads variableName? (token :: rest) (token :: rest) none [] := by
  refine Reads.peek (g := fun _ => Pure.pure none) ?_ (Reads.pure none)
  rw [if_neg (by simp [h])]

theorem reads_operand (value : ListValue) (h : token ≠ .punct '(') :
    Reads operand (value.val :: token :: rest) (token :: rest)
      ⟨value.val.text, value.val.isVariable⟩ [] := by
  obtain ⟨value, hne, -⟩ := value
  dsimp only
  cases hvariable : value.isVariable with
  | false =>
      refine (reads_variableName?_none hvariable).andThen (Reads.next.andThen ?_)
      rw [if_neg (by simp [hne])]
      exact Reads.pure _
  | true =>
      cases value with
      | word name =>
          have hname : Reads variableName? (.word name :: token :: rest) _ _ [] :=
            reads_variableName? ⟨name, hvariable, none⟩ h
          exact hname.andThen (Reads.pure _)
      | literal _ => cases hvariable
      | punct _ => cases hvariable
      | endOfSource => cases hvariable

theorem reads_comparator_equals : Reads comparator (.punct '=' :: rest) rest .eq [] :=
  Reads.next.andThen (Reads.pure _)

theorem reads_test (subject : Variable) (value : ListValue) (h : token ≠ .punct '(') :
    Reads test (subject.tokens ++ .punct '=' :: value.val :: token :: rest) (token :: rest)
      ⟨subject.text, .eq, value.val.text⟩ [subject.text] := by
  have hsubject : Reads operand (subject.tokens ++ .punct '=' :: value.val :: token :: rest) _
      ⟨subject.text, true⟩ [] := (reads_variableName? subject (by simp)).andThen (Reads.pure _)
  refine hsubject.andThen (reads_comparator_equals.andThen ((reads_operand value h).andThen ?_))
  simp only [if_true, pure_bind]
  exact Reads.register.bind (Reads.pure _)

theorem reads_expr_of_connected {after : List Token} {guard : Expr} {names : List String}
    (subject : Variable) (value : ListValue) (h : token ≠ .punct '(')
    (hlater : Reads (connected expr (.test ⟨subject.text, .eq, value.val.text⟩)) (token :: rest)
      after guard names) :
    Reads expr (subject.tokens ++ .punct '=' :: value.val :: token :: rest) after guard
      (subject.text :: names) := by
  rw [expr_eq]
  have htest : Reads (Expr.test <$> test) _ (token :: rest) _ [subject.text] :=
    (reads_test subject value h).map
  exact Reads.peek rfl (htest.bind hlater)

theorem reads_expr_compared (subject : Variable) (first : ListValue) (others : List ListValue) :
    Reads expr (compared subject first others ++ .punct ')' :: rest) (.punct ')' :: rest)
      (.oneOf subject.text first.val.text (others.map (·.val.text)))
      (subject.text :: others.map fun _ => subject.text) := by
  induction others generalizing first with
  | nil =>
      simp only [compared, List.append_assoc, List.cons_append, List.nil_append]
      refine reads_expr_of_connected subject first (by simp) ?_
      exact Reads.peek rfl (Reads.pure _)
  | cons second others ih =>
      simp only [compared, List.append_assoc, List.cons_append]
      refine reads_expr_of_connected subject first (by simp) ?_
      exact Reads.next.andThen (ih second).map

/-- A list and the comparisons with its values ask the same and register the same. -/
theorem Question.exists_reads {subject : Variable} (question : Question (some subject)) :
    ∃ names, ∀ rest,
      Reads (whenValues subject.text) (question.tokens ++ .punct ')' :: rest) (.punct ')' :: rest)
        question.expr names ∧
      Reads Reader.expr (question.comparisons ++ .punct ')' :: rest) (.punct ')' :: rest)
        question.expr names := by
  cases question with
  | oneOf first others =>
      exact ⟨_, fun rest =>
        ⟨reads_whenValues first others, reads_expr_compared subject first others⟩⟩

/-! ## Heads -/

theorem exists_whenWith?_run (subject : Option String) {question : List Token} {guard : Expr}
    {names : List String}
    (h : Reads (match subject with | some subject => whenValues subject | none => expr)
      (question ++ .punct ')' :: rest) (.punct ')' :: rest) guard names)
    {s : Reading} (hs : s.tokens.toList = whenTokens question ++ rest) :
    ∃ tokens, (∀ nested, whenWith? nested subject s =
        (do return some (guard, ← blockWith nested)) (s.readTo tokens names)) ∧
      tokens.toList = rest ∧ tokens.pending = none ∧ tokens.exhausted = s.tokens.exhausted := by
  have hwhen : s.tokens.toList =
      .word "WHEN" :: .punct '(' :: (question ++ .punct ')' :: rest) := by
    simpa [whenTokens] using hs
  have haccept (rest : List Token) :
      Reads (accept (· == .word "WHEN")) (.word "WHEN" :: rest) rest true [] := .accept (by simp)
  obtain ⟨opening, hopening, htoList, hexhausted⟩ := (haccept _).exists_run_bind hwhen
  have hexpect (rest : List Token) :
      Reads (expect '(' "( after WHEN") (.punct '(' :: rest) rest () [] := .expect
  obtain ⟨asking, hasking, htoList', hexhausted'⟩ :=
    (hexpect _).exists_run_bind (s := s.readTo opening []) htoList
  obtain ⟨closing, hclosing, htoList'', hexhausted''⟩ :=
    h.exists_run_bind (s := s.readTo asking []) htoList'
  obtain ⟨hnext, hne, hrest⟩ := TokenStream.toList_eq_cons_iff.1 htoList''
  refine ⟨closing.next.2, fun nested => ?_, hrest, TokenStream.pending_next _, ?_⟩
  · have hlast (f : Unit → Reader (Option (Expr × Statement))) :
        (expect ')' "closing parenthesis on WHEN" >>= f) (s.readTo closing names) =
          f () (s.readTo closing.next.2 names) := by
      rw [bind_run, expect_run (next_run_of_toList (s := s.readTo closing names) htoList'')]
      rfl
    rw [whenWith?, hopening, if_pos rfl, hasking]
    cases subject <;> exact (hclosing _).trans (hlast _)
  · rw [TokenStream.exhausted_next_of_ne (hnext ▸ hne)]
    exact hexhausted''.trans (hexhausted'.trans hexhausted)

/-! ## The header -/

section

variable {s : Reading} {n : Nat}

theorem selectSubject_run (subject : Variable)
    (h : (s.skip n).tokens.toList = subject.tokens ++ .punct ')' :: rest) :
    ∃ waiting, selectSubject (s.skip n) = .ok subject.text waiting ∧
      next waiting = .ok (.punct ')') (s.skip (n + subject.tokens.length + 1)) := by
  obtain ⟨name, marked, qualifier⟩ := subject
  have hmarked : (Token.word name).isVariable = true := marked
  obtain ⟨hname, h⟩ := next_skip h
  have hsubject {waiting : Reading} {text : String}
      (h : variableName? (s.skip n) = .ok (some text) waiting) :
      selectSubject (s.skip n) = .ok text waiting := by
    rw [selectSubject, bind_run, h]
    rfl
  cases qualifier with
  | none =>
      obtain ⟨hclose, -⟩ := next_skip h
      have hother : Token.punct ')' ≠ .punct '(' := by simp
      obtain ⟨waiting, haccept, hagain⟩ := exists_accept_run_not hclose Reading.pending_skip hother
      refine ⟨waiting, hsubject ?_, hagain⟩
      rw [variableName?, bind_run, hname]
      dsimp only
      rw [if_pos hmarked, bind_run, haccept]
      rfl
  | some qualifier =>
      obtain ⟨hopen, h⟩ := next_skip h
      obtain ⟨hqualifier, h⟩ := next_skip h
      obtain ⟨hclose, h⟩ := next_skip h
      obtain ⟨hlast, -⟩ := next_skip h
      refine ⟨_, hsubject ?_, hlast⟩
      rw [variableName?, bind_run, hname]
      dsimp only
      rw [if_pos hmarked, bind_run, accept_run hopen]
      dsimp only
      rw [if_pos rfl, bind_run, hqualifier]
      dsimp only
      rw [if_neg (by simp [qualifier.property]), bind_run, expect_run hclose]
      rfl

theorem selectWith_run (subject : Variable)
    (h : (s.skip n).tokens.toList = subjectTokens (some subject) ++ rest) :
    selectWith statement? (s.skip n) =
      branchesWith statement? (some subject.text) (s.skip (n + subject.tokens.length + 2)) := by
  have hheader : (s.skip n).tokens.toList =
      .punct '(' :: (subject.tokens ++ .punct ')' :: rest) := by
    simpa [subjectTokens] using h
  obtain ⟨hopen, hheader⟩ := next_skip hheader
  obtain ⟨waiting, hsubject, hclose⟩ := selectSubject_run subject hheader
  rw [selectWith, bind_run, accept_run hopen]
  dsimp only
  rw [if_pos rfl, bind_run, hsubject]
  dsimp only
  rw [bind_run, expect_run hclose]
  dsimp only
  rw [pure_bind, Nat.add_right_comm n 1]
  rfl

theorem exists_selectWith_run_none (h : s.tokens.toList = .word "WHEN" :: rest) :
    ∃ tokens, selectWith statement? s = branchesWith statement? none (s.readTo tokens []) ∧
      tokens.toList = .word "WHEN" :: rest ∧ tokens.exhausted = s.tokens.exhausted := by
  have hnone : Reads (accept (· == .punct '(')) (.word "WHEN" :: rest) (.word "WHEN" :: rest)
      false [] := .accept_not (by simp)
  obtain ⟨tokens, haccept, hwhen, hexhausted⟩ := hnone.exists_run_bind h
  refine ⟨tokens, ?_, hwhen, hexhausted⟩
  rw [selectWith, haccept, if_neg (by simp), pure_bind]
  rfl

theorem statement?_run_select (h : s.tokens.toList = .word "SELECT" :: rest) :
    statement? s = (do return some (← selectWith statement?)) (s.skip 1) := by
  refine (congrFun statement?_eq s).trans ?_
  rw [statementWith?, bind_run, next_run_of_toList h]
  rfl

end

end ClassSelection.Source
