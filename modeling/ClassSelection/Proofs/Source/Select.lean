import ClassSelection.Proofs.Source.Statement

/-!
# Reading the parts of a SELECT

The subject, the questions, and the loop over the branches.  The loop is taken
apart branch by branch (`branchesWith_run_some`), so that the rules follow the
written branches.
-/

namespace ClassSelection.Source

open Reader

variable {kind : Option RoutineKind} {rest : List Token}

/-! ## Subject and questions -/

theorem runs_selectWith (subject : Option Variable) {tokens : List Token}
    {outcome : EStateM.Result Error Reading Statement → Prop}
    (hparen : upcoming tokens ≠ .punct '(')
    (h : Runs kind (branchesWith statement? (subject.map Variable.text)) tokens outcome) :
    Runs kind (selectWith statement?) (subjectTokens subject ++ tokens) outcome := by
  cases subject with
  | none =>
      refine runs_accept_not (by simpa [subjectTokens] using hparen) ?_
      exact h
  | some subject =>
      have hsubject : Takes kind selectSubject (subject.tokens ++ .punct ')' :: tokens)
          (.punct ')' :: tokens) (· = subject.text) :=
        (takes_variableName? subject (by simp)).bind fun _ heq => heq ▸ Takes.pure rfl
      simp only [subjectTokens, List.cons_append, List.append_assoc]
      refine runs_accept (by simp) (hsubject.bind fun _ heq => runs_expect ?_)
      rw [heq]
      exact h

theorem takes_whenValue {subject : String} (value : ListValue) :
    Takes kind (whenValue subject) (value.val :: rest) rest (· = value.val.text) := by
  apply runs_next
  rw [if_neg (by simp [value.property])]
  exact runs_register (Takes.pure rfl)

private theorem takes_listValues {subject : String} (values : List ListValue) :
    Takes kind
      (many do
        if ← accept (· == .punct ',') then
          return some (← whenValue subject)
        else
          return none)
      (values.flatMap (fun value => [.punct ',', value.val]) ++ .punct ')' :: rest)
      (.punct ')' :: rest) (·.map id = values.map fun value => value.val.text) := by
  induction values with
  | nil =>
      have hend : Takes kind
          (do
            if ← accept (· == .punct ',') then
              return some (← whenValue subject)
            else
              return none)
          (.punct ')' :: rest) (.punct ')' :: rest) (· = none) :=
        runs_accept_not (by simp) (Takes.pure rfl)
      exact (takes_many_nil hend).mono fun _ heq => by simp [heq]
  | cons value values ih =>
      refine takes_many_cons (fun bound => agree_listedValue?) ?_ ih
      refine runs_accept (by simp) ((takes_whenValue value).bind fun _ heq => Takes.pure ?_)
      simp [heq]

theorem takes_whenValues {subject : String} (first : ListValue) (others : List ListValue) :
    Takes kind (whenValues subject)
      (first.val :: (others.flatMap (fun value => [.punct ',', value.val]) ++ .punct ')' :: rest))
      (.punct ')' :: rest)
      (· = .oneOf subject first.val.text (others.map fun value => value.val.text)) := by
  refine (takes_whenValue first).bind fun _ hfirst => (takes_listValues others).bind
    fun _ hothers => Takes.pure ?_
  rw [hfirst, ← hothers, List.map_id]

theorem runs_whenWith? {subject : Option Variable} (question : Question subject)
    {tokens : List Token}
    {outcome : EStateM.Result Error Reading (Option (Expr × Statement)) → Prop}
    (h : Runs kind (do let body ← blockWith statement?; return some (question.expr, body)) tokens
      outcome) :
    Runs kind (whenWith? statement? (subject.map Variable.text))
      (.word "WHEN" :: .punct '(' :: (question.tokens ++ .punct ')' :: tokens)) outcome := by
  refine runs_accept (by simp) (runs_expect ?_)
  cases question with
  | guard g =>
      have hguard : Takes kind expr (g.tokens ++ .punct ')' :: tokens) (.punct ')' :: tokens)
          (· = g.expr) := g.takes (.inr rfl)
      exact hguard.bind fun _ heq => heq ▸ runs_expect h
  | oneOf first others =>
      exact (takes_whenValues first others).bind fun _ heq => heq ▸ runs_expect h

/-! ## Branches -/

def branchWithoutLines (branch : Expr × Statement) : Expr × Statement :=
  (branch.1, branch.2.withoutLines)

section

variable {subject : Option Variable} {statements : List Statement} {before after : List Token}

theorem takes_whenWith? (question : Question subject)
    (h : Takes kind (many statement?) before after (·.map Statement.withoutLines = statements)) :
    Takes kind (whenWith? statement? (subject.map Variable.text))
      (.word "WHEN" :: .punct '(' :: (question.tokens ++ .punct ')' :: before)) after
      (·.map branchWithoutLines = some (question.expr, .sequence statements)) :=
  runs_whenWith? question <| (takes_blockWith h).bind fun _ heq =>
    Takes.pure (congrArg (fun body => some (question.expr, body)) heq)

theorem never_whenWith? (question : Question subject)
    (h : Never kind (many statement?) before (·.map Statement.withoutLines = statements)) :
    Never kind (whenWith? statement? (subject.map Variable.text))
      (.word "WHEN" :: .punct '(' :: (question.tokens ++ .punct ')' :: before))
      (·.map branchWithoutLines = some (question.expr, .sequence statements)) := by
  refine runs_whenWith? question (Never.bind (never_blockWith h) fun a s b s' hrun hb => ?_)
  cases hrun
  exact (Prod.mk.inj (Option.some.inj hb)).2

end

section

variable {subject : Option String} {before middle after : List Token}

theorem takes_whenWith?_none (h : upcoming before ≠ .word "WHEN") :
    Takes kind (whenWith? statement? subject) before before (· = none) :=
  runs_accept_not (by simpa using h) (Takes.pure rfl)

theorem takes_branchesWith_done (h : opensBranch before = false) :
    Takes kind (branchesWith statement? subject) before before
      (·.withoutLines = .select .done) := by
  simp only [opensBranch, Bool.or_eq_false_iff, beq_eq_false_iff_ne] at h
  refine (takes_many_nil (takes_whenWith?_none h.1)).bind fun _ heq => ?_
  rw [heq]
  refine runs_accept_not (by simpa using h.2) ?_
  exact Takes.pure rfl

theorem takes_branchesWith_otherwise {statements : List Statement}
    (h : Takes kind (many statement?) before after (·.map Statement.withoutLines = statements)) :
    Takes kind (branchesWith statement? subject) (.word "OTHERWISE" :: before) after
      (·.withoutLines = .select (.otherwise (.sequence statements))) := by
  refine (takes_many_nil (takes_whenWith?_none (by simp))).bind fun _ heq => ?_
  rw [heq]
  refine runs_accept (by simp) ((takes_blockWith h).bind fun body hbody => ?_)
  exact Takes.pure (congrArg (fun body => Statement.select (.otherwise body)) hbody)

theorem never_branchesWith_otherwise {statements : List Statement}
    (h : Never kind (many statement?) before (·.map Statement.withoutLines = statements)) :
    Never kind (branchesWith statement? subject) (.word "OTHERWISE" :: before)
      (·.withoutLines = .select (.otherwise (.sequence statements))) := by
  refine (takes_many_nil (takes_whenWith?_none (by simp))).bind fun _ heq => ?_
  rw [heq]
  refine runs_accept (by simp) (Never.bind (never_blockWith h) fun a s b s' hrun hb => ?_)
  cases hrun
  exact Branches.otherwise.inj (Statement.select.inj hb)

def withBranch (branch : Expr × Statement) : Statement → Statement
  | .select branches => .select (.when branch.1 branch.2 branches)
  | statement => statement

theorem branchesWith_run_some {branch : Expr × Statement} {s s' : Reading}
    (h : whenWith? statement? subject s = .ok (some branch) s') :
    branchesWith statement? subject s =
      (do return withBranch branch (← branchesWith statement? subject)) s' := by
  rw [bind_run, branchesWith, bind_run, bind_run,
    many_run_some (agree_whenWith? subject agree_statement?) h]
  match many (whenWith? statement? subject) s' with
  | .error e final => rfl
  | .ok whens middle =>
      dsimp only
      rw [bind_run, bind_run]
      match accept (· == .word "OTHERWISE") middle with
      | .error e final => rfl
      | .ok false final => rfl
      | .ok true final =>
          dsimp only
          rw [if_pos rfl, if_pos rfl, bind_run, bind_run]
          match blockWith statement? final with
          | .error e _ => rfl
          | .ok body _ => rfl

theorem withoutLines_withBranch_iff {branch : Expr × Statement} {statement : Statement}
    {guard : Expr} {body : Statement} {branches : Branches} :
    (withBranch branch statement).withoutLines = .select (.when guard body branches) ↔
      branchWithoutLines branch = (guard, body) ∧ statement.withoutLines = .select branches := by
  cases statement with
  | select others =>
      simp [withBranch, branchWithoutLines, Statement.withoutLines, Branches.withoutLines,
        and_assoc]
  | _ => simp [withBranch, Statement.withoutLines]

theorem takes_branchesWith_when {guard : Expr} {body : Statement} {branches : Branches}
    (hbranch : Takes kind (whenWith? statement? subject) before middle
      (·.map branchWithoutLines = some (guard, body)))
    (hothers : Takes kind (branchesWith statement? subject) middle after
      (·.withoutLines = .select branches)) :
    Takes kind (branchesWith statement? subject) before after
      (·.withoutLines = .select (.when guard body branches)) := by
  intro s hs
  obtain ⟨a, s', hrun, ha, hs'⟩ := hbranch s hs
  obtain ⟨branch, rfl, hbranch⟩ := Option.map_eq_some_iff.1 ha
  obtain ⟨statement, s'', hrun', hstatement, hs''⟩ := hothers s' hs'
  refine ⟨withBranch branch statement, s'', ?_,
    withoutLines_withBranch_iff.2 ⟨hbranch, hstatement⟩, hs''⟩
  rw [branchesWith_run_some hrun]
  exact bind_eq_ok.2 ⟨statement, s'', hrun', rfl⟩

theorem never_branchesWith_tail {guard : Expr} {body : Statement} {branches : Branches}
    (hbranch : Takes kind (whenWith? statement? subject) before middle
      (·.map branchWithoutLines = some (guard, body)))
    (hothers : Never kind (branchesWith statement? subject) middle
      (·.withoutLines = .select branches)) :
    Never kind (branchesWith statement? subject) before
      (·.withoutLines = .select (.when guard body branches)) := by
  intro s hs statement final hrun heq
  obtain ⟨a, s', hrun', ha, hs'⟩ := hbranch s hs
  obtain ⟨branch, rfl, -⟩ := Option.map_eq_some_iff.1 ha
  rw [branchesWith_run_some hrun'] at hrun
  obtain ⟨others, s'', hothers', hfinal⟩ := bind_eq_ok.1 hrun
  cases hfinal
  exact hothers s' hs' others _ hothers' (withoutLines_withBranch_iff.1 heq).2

theorem withoutLines_ne_when {statement : Statement} {s s' final : Reading} {guard : Expr}
    {body : Statement} {branches : Branches} (h : whenWith? statement? subject s = .ok none s')
    (hrun : branchesWith statement? subject s = .ok statement final) :
    statement.withoutLines ≠ .select (.when guard body branches) := by
  rw [branchesWith, bind_run, many_run_none h] at hrun
  obtain ⟨taken, middle, -, hrun⟩ := bind_eq_ok.1 hrun
  cases taken with
  | false =>
      cases hrun
      simp [Statement.withoutLines, Branches.withoutLines, Branches.prepend]
  | true =>
      obtain ⟨last, _, -, hrun⟩ := bind_eq_ok.1 hrun
      cases hrun
      simp [Statement.withoutLines, Branches.withoutLines, Branches.prepend]

theorem never_branchesWith_head {guard : Expr} {body : Statement} {branches : Branches}
    (hbranch : Never kind (whenWith? statement? subject) before
      (·.map branchWithoutLines = some (guard, body))) :
    Never kind (branchesWith statement? subject) before
      (·.withoutLines = .select (.when guard body branches)) := by
  intro s hs statement final hrun heq
  match hwhen : whenWith? statement? subject s with
  | .error e s' =>
      rw [branchesWith, bind_run, many_run_error hwhen] at hrun
      cases hrun
  | .ok none s' => exact withoutLines_ne_when hwhen hrun heq
  | .ok (some branch) s' =>
      rw [branchesWith_run_some hwhen] at hrun
      obtain ⟨others, s'', -, hfinal⟩ := bind_eq_ok.1 hrun
      cases hfinal
      exact hbranch s hs _ s' hwhen (congrArg some (withoutLines_withBranch_iff.1 heq).1)

/-- After a WHEN there is a branch or an error. -/
theorem never_whenWith?_none :
    Never kind (whenWith? statement? subject) (.word "WHEN" :: rest) (· = none) := by
  have hbody {guard : Expr} {s final : Reading} {a : Option (Expr × Statement)}
      (hrun : (do
        expect ')' "closing parenthesis on WHEN"
        let body ← blockWith statement?
        return some (guard, body)) s = .ok a final) : a ≠ none := by
    obtain ⟨_, _, -, hrun⟩ := bind_eq_ok.1 hrun
    obtain ⟨_, _, -, hrun⟩ := bind_eq_ok.1 hrun
    cases hrun
    simp
  refine runs_accept (by simp) fun s hs a final hrun => ?_
  obtain ⟨_, _, -, hrun⟩ := bind_eq_ok.1 hrun
  cases subject with
  | none =>
      obtain ⟨_, _, -, hrun⟩ := bind_eq_ok.1 hrun
      exact hbody hrun
  | some subject =>
      obtain ⟨_, _, -, hrun⟩ := bind_eq_ok.1 hrun
      exact hbody hrun

/-- A branch that comes next is read into the SELECT, whatever SELECT it belongs to. -/
theorem never_branchesWith_done (h : opensBranch before = true) :
    Never kind (branchesWith statement? subject) before (·.withoutLines = .select .done) := by
  cases before with
  | nil => cases h
  | cons token rest =>
      simp only [opensBranch, upcoming_cons, Bool.or_eq_true, beq_iff_eq] at h
      rcases h with rfl | rfl
      · intro s hs statement final hrun heq
        match hwhen : whenWith? statement? subject s with
        | .error e s' =>
            rw [branchesWith, bind_run, many_run_error hwhen] at hrun
            cases hrun
        | .ok none s' => exact never_whenWith?_none s hs none s' hwhen rfl
        | .ok (some branch) s' =>
            rw [branchesWith_run_some hwhen] at hrun
            obtain ⟨others, s'', -, hfinal⟩ := bind_eq_ok.1 hrun
            cases hfinal
            cases others <;> simp [withBranch, Statement.withoutLines, Branches.withoutLines] at heq
      · refine (takes_many_nil (takes_whenWith?_none (by simp))).bind fun _ heq => ?_
        rw [heq]
        refine runs_accept (by simp) fun s hs statement final hrun heq => ?_
        obtain ⟨body, s', -, hfinal⟩ := bind_eq_ok.1 hrun
        cases hfinal
        simp [Statement.withoutLines, Branches.withoutLines, Branches.prepend] at heq

end

end ClassSelection.Source
