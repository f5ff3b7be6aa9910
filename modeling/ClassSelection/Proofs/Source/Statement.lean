import ClassSelection.Proofs.Source.Ending

/-!
# Reading the parts of statements

One rule for each construct: how its reader runs on the tokens that start it,
given how the readers inside it run on the tokens that follow.
-/

namespace ClassSelection

namespace Statement

@[simp] theorem withoutLines_sequence (statements : List Statement) :
    (sequence statements).withoutLines = sequence (statements.map withoutLines) := by
  induction statements with
  | nil => rfl
  | cons first others ih => simp [sequence, withoutLines, ih]

theorem sequence_injective {left right : List Statement} (h : sequence left = sequence right) :
    left = right := by
  induction left generalizing right with
  | nil =>
      cases right with
      | nil => rfl
      | cons second others => simp [sequence] at h
  | cons first others ih =>
      cases right with
      | nil => simp [sequence] at h
      | cons second others' =>
          simp only [sequence, seq.injEq] at h
          rw [h.1, ih h.2]

end Statement

namespace Source

open Reader

variable {kind : Option RoutineKind} {rest : List Token}

def opensBranch (tokens : List Token) : Bool :=
  upcoming tokens == .word "WHEN" || upcoming tokens == .word "OTHERWISE"

/-- A block ends before the tokens `before`, and its reader leaves `after`. -/
inductive EndsBlock : List Token → List Token → Prop where
  | last (rest : List Token) : EndsBlock (.word "END" :: rest) rest
  | when (rest : List Token) : EndsBlock (.word "WHEN" :: rest) (.word "WHEN" :: rest)
  | otherwise (rest : List Token) :
      EndsBlock (.word "OTHERWISE" :: rest) (.word "OTHERWISE" :: rest)
  | endOfSource : EndsBlock [] []

theorem EndsBlock.upcoming_ne_else {before after : List Token} (h : EndsBlock before after) :
    upcoming before ≠ .word "ELSE" := by
  cases h <;> simp

theorem takes_statement?_none {before after : List Token} (h : EndsBlock before after) :
    Takes kind statement? before after (· = none) := by
  rw [statement?_eq]
  cases h with
  | last =>
      apply runs_next
      exact Takes.pure rfl
  | when =>
      apply runs_putBack
      · rfl
      · exact Takes.pure rfl
  | otherwise =>
      apply runs_putBack
      · rfl
      · exact Takes.pure rfl
  | endOfSource =>
      apply runs_next_end
      exact Takes.pure rfl

/-! ## Statements by their keyword -/

theorem takes_some {x : Reader Statement} {before after : List Token} {target : Statement}
    (h : Takes kind x before after (·.withoutLines = target)) :
    Takes kind (do return some (← x)) before after
      (·.map Statement.withoutLines = some target) :=
  h.bind fun _ heq => Takes.pure (congrArg some heq)

theorem never_some {x : Reader Statement} {before : List Token} {target : Statement}
    (h : Never kind x before (·.withoutLines = target)) :
    Never kind (do return some (← x)) before (·.map Statement.withoutLines = some target) := by
  refine Never.bind h fun a s b s' hrun hb => ?_
  cases hrun
  exact Option.some.inj hb

theorem takes_set (kind : RoutineKind) {sign value : Token}
    (hsign : sign = .punct '=' ∨ sign = .word "EQ") (hvalue : value ≠ .endOfSource) :
    Takes (some kind) statement?
      (.word "SET" :: .word ("&" ++ kind.name) :: sign :: value :: rest) rest
      (·.map Statement.withoutLines = some (.assign value.text 0)) := by
  have hassignment : Takes (some kind) assignment
      (.word ("&" ++ kind.name) :: sign :: value :: rest) rest
      (·.withoutLines = .assign value.text 0) := by
    have htarget : (if (Token.word ("&" ++ kind.name)).isVariable then
        RoutineKind.ofName? (Token.word ("&" ++ kind.name)).text else none) = some kind := by
      cases kind <;> decide
    apply runs_next
    rw [htarget]
    dsimp only
    rw [pure_bind]
    refine runs_get fun s hs => ?_
    rw [hs.kind]
    dsimp only
    rw [if_pos (by simp)]
    apply runs_next
    rw [if_pos (by simpa using hsign)]
    apply runs_next
    rw [if_neg (by simpa using hvalue)]
    apply runs_modify
    · exact fun _ => rfl
    · exact fun _ => rfl
    · exact runs_line fun _ => Takes.pure rfl
  rw [statement?_eq]
  apply runs_next
  exact takes_some hassignment

/-! ## IF -/

section

variable {guard : Expr} {target other : Statement} {before middle after : List Token}

theorem runs_conditionalWith {tokens : List Token} (guard : Guard)
    {outcome : EStateM.Result Error Reading Statement → Prop}
    (h : Runs kind (thenWith statement? guard.expr) tokens outcome) :
    Runs kind (conditionalWith statement?) (guard.tokens ++ .word "THEN" :: tokens) outcome := by
  have hguard : Takes kind expr (guard.tokens ++ .word "THEN" :: tokens) (.word "THEN" :: tokens)
      (· = guard.expr) := guard.takes (.inl rfl)
  refine hguard.bind fun _ heq => ?_
  apply runs_next
  rw [if_pos (by simp), heq]
  exact h

theorem takes_thenWith
    (hbody : Takes kind statement? before after (·.map Statement.withoutLines = some target))
    (helse : upcoming after ≠ .word "ELSE") :
    Takes kind (thenWith statement? guard) before after
      (·.withoutLines = .ifThen guard target) := by
  refine hbody.bind fun a ha => ?_
  obtain ⟨body, rfl, rfl⟩ := Option.map_eq_some_iff.1 ha
  refine runs_accept_not (by simpa using helse) ?_
  exact Takes.pure rfl

theorem takes_thenWith_else
    (hbody : Takes kind statement? before (.word "ELSE" :: middle)
      (·.map Statement.withoutLines = some target))
    (hother : Takes kind statement? middle after (·.map Statement.withoutLines = some other)) :
    Takes kind (thenWith statement? guard) before after
      (·.withoutLines = .ifElse guard target other) := by
  refine hbody.bind fun a ha => ?_
  obtain ⟨body, rfl, rfl⟩ := Option.map_eq_some_iff.1 ha
  refine runs_accept (by simp) (hother.bind fun b hb => ?_)
  obtain ⟨alternative, rfl, rfl⟩ := Option.map_eq_some_iff.1 hb
  exact Takes.pure rfl

/-- A statement after THEN that is not read as written is not made up for by an ELSE. -/
theorem never_thenWith (hskip : target ≠ .skip)
    (hbody : Never kind statement? before (·.map Statement.withoutLines = some target)) :
    Never kind (thenWith statement? guard) before fun statement =>
      statement.withoutLines = .ifThen guard target ∨
        ∃ other, statement.withoutLines = .ifElse guard target other := by
  refine Never.bind hbody fun a s b s' hrun hb => ?_
  have hbody : (a.getD .skip).withoutLines = target := by
    obtain ⟨taken, middle, -, hrun⟩ := bind_eq_ok.1 hrun
    cases taken with
    | false =>
        cases hrun
        simpa [Statement.withoutLines] using hb
    | true =>
        obtain ⟨alternative, final, -, hrun⟩ := bind_eq_ok.1 hrun
        cases hrun
        simpa [Statement.withoutLines] using hb
  cases a with
  | none => exact absurd hbody.symm hskip
  | some body => exact congrArg some hbody

theorem never_thenWith_else (hskip : other ≠ .skip)
    (hbody : Takes kind statement? before (.word "ELSE" :: middle)
      (·.map Statement.withoutLines = some target))
    (hother : Never kind statement? middle (·.map Statement.withoutLines = some other)) :
    Never kind (thenWith statement? guard) before
      (·.withoutLines = .ifElse guard target other) := by
  refine hbody.bind fun a _ => runs_accept (by simp) (Never.bind hother fun b s c s' hrun hc => ?_)
  cases hrun
  cases b with
  | none => exact absurd (Statement.ifElse.inj hc).2.2.symm hskip
  | some alternative => exact congrArg some (Statement.ifElse.inj hc).2.2

end

/-! ## DO -/

section

variable {statements : List Statement} {before after : List Token}

theorem takes_blockWith
    (h : Takes kind (many statement?) before after (·.map Statement.withoutLines = statements)) :
    Takes kind (blockWith statement?) before after
      (·.withoutLines = .sequence statements) :=
  h.map fun _ heq => by rw [Statement.withoutLines_sequence, heq]

theorem never_blockWith
    (h : Never kind (many statement?) before (·.map Statement.withoutLines = statements)) :
    Never kind (blockWith statement?) before (·.withoutLines = .sequence statements) :=
  h.map fun _ heq => by
    rw [Statement.withoutLines_sequence] at heq
    exact Statement.sequence_injective heq

theorem takes_block
    (h : Takes kind (many statement?) before after (·.map Statement.withoutLines = statements)) :
    Takes kind statement? (.word "DO" :: before) after
      (·.map Statement.withoutLines = some (.block (.sequence statements))) := by
  rw [statement?_eq]
  apply runs_next
  exact (takes_blockWith h).bind fun _ heq =>
    Takes.pure (congrArg (fun body => some (Statement.block body)) heq)

theorem never_block
    (h : Never kind (many statement?) before (·.map Statement.withoutLines = statements)) :
    Never kind statement? (.word "DO" :: before)
      (·.map Statement.withoutLines = some (.block (.sequence statements))) := by
  rw [statement?_eq]
  apply runs_next
  refine Never.bind (never_blockWith h) fun a s b s' hrun hb => ?_
  cases hrun
  exact Statement.block.inj (Option.some.inj hb)

end

end Source

end ClassSelection
