import ClassSelection.Proofs.Source.Select

/-!
# Reading written statements

`Tree.takes` and `Tree.never` say that `Tree.ending` is right: a statement that
ends exactly or early is read as it is written, and one that is misread never
is.  The induction is on the tree, with whatever follows it.
-/

namespace ClassSelection.Source

open Reader

variable {o : Bool} {subject : Option Variable}

/-! ## First tokens -/

theorem Tree.opensBranch_tokens (kind : RoutineKind) (tree : Tree o) (rest : List Token) :
    opensBranch (tree.tokens kind ++ rest) = false := by
  cases tree <;> simp [Tree.tokens, opensBranch]

theorem Tree.upcoming_tokens_ne_else (kind : RoutineKind) (tree : Tree o) (rest : List Token) :
    upcoming (tree.tokens kind ++ rest) ≠ .word "ELSE" := by
  cases tree <;> simp [Tree.tokens]

theorem Body.opensBranch_tokens (kind : RoutineKind) (body : Body) (rest : List Token) :
    opensBranch (body.tokens kind ++ rest) = (opensBranch rest && body.isNil) := by
  cases body with
  | nil => simp [Body.tokens, Body.isNil]
  | cons first others =>
      simp [Body.tokens, Body.isNil, List.append_assoc, first.opensBranch_tokens kind]

theorem Choices.opensBranch_tokens (kind : RoutineKind) (choices : Choices subject)
    (rest : List Token) : opensBranch (choices.tokens kind ++ rest) = !choices.isDone := by
  cases choices <;> simp [Choices.tokens, Choices.isDone, opensBranch]

theorem Choices.upcoming_tokens_ne_paren (kind : RoutineKind) (choices : Choices subject)
    (rest : List Token) : upcoming (choices.tokens kind ++ rest) ≠ .punct '(' := by
  cases choices <;> simp [Choices.tokens]

/-- A body ends before the next branch, which stays where it is, or at the END, which does not. -/
theorem Choices.endsBlock (kind : RoutineKind) (choices : Choices subject) (rest : List Token) :
    EndsBlock (choices.tokens kind ++ rest)
      (if choices.isDone then rest else choices.tokens kind ++ rest) := by
  cases choices with
  | done => exact .last rest
  | otherwise => exact .otherwise _
  | when => exact .when _

theorem Tree.statement_ne_skip (tree : Tree o) : tree.statement ≠ .skip := by
  cases tree <;> simp [Tree.statement]

theorem Choices.eq_done_of_isDone {choices : Choices subject} (h : choices.isDone = true) :
    choices = .done := by
  cases choices with
  | done => rfl
  | otherwise | when => cases h

/-- What a body leaves over goes to the END behind it. -/
theorem Ending.endsBlock (ending : Ending) (rest : List Token) :
    EndsBlock (ending.left ++ .word "END" :: rest) (ending.left ++ rest) := by
  cases ending <;> exact .last _

theorem opensBranch_end (rest : List Token) : opensBranch (.word "END" :: rest) = false := by
  simp [opensBranch]

theorem opensBranch_else (rest : List Token) : opensBranch (.word "ELSE" :: rest) = false := by
  simp [opensBranch]

/-! ## Statements that are read as written -/

mutual

theorem Tree.takes (kind : RoutineKind) {o : Bool} (tree : Tree o) {rest : List Token}
    {ending : Ending} (hending : tree.ending (opensBranch rest) = ending) (h : ending ≠ .misread)
    (helse : o = true → upcoming (ending.left ++ rest) ≠ .word "ELSE") :
    Takes (some kind) statement? (tree.tokens kind ++ rest) (ending.left ++ rest)
      (·.map Statement.withoutLines = some tree.statement) := by
  match tree with
  | .set sign value =>
      subst hending
      exact takes_set kind sign.property value.property
  | .ifThen guard body =>
      simp only [Tree.tokens, List.cons_append, List.append_assoc]
      rw [statement?_eq]
      apply runs_next
      exact takes_some <| runs_conditionalWith guard <|
        takes_thenWith (body.takes kind hending h fun _ => helse rfl) (helse rfl)
  | .ifElse guard body alternative =>
      have hbody : body.ending false = .exact := by
        rw [Tree.ending] at hending
        split at hending
        · assumption
        · exact absurd hending.symm h
        · exact absurd hending.symm h
      rw [Tree.ending, hbody] at hending
      have hthen : body.ending
          (opensBranch (.word "ELSE" :: (alternative.tokens kind ++ rest))) = .exact := by
        rw [opensBranch_else, hbody]
      simp only [Tree.tokens, List.cons_append, List.append_assoc]
      rw [statement?_eq]
      apply runs_next
      exact takes_some <| runs_conditionalWith guard <| takes_thenWith_else
        (body.takes kind hthen (by simp) (by simp))
        (alternative.takes kind hending h helse)
  | .block body =>
      rw [Tree.tokens, List.cons_append, List.append_assoc]
      exact takes_block <|
        body.takes kind (by rw [List.singleton_append, opensBranch_end]; exact hending) h
          (ending.endsBlock rest)
  | .select subject choices =>
      simp only [Tree.tokens, List.cons_append, List.append_assoc]
      rw [statement?_eq]
      apply runs_next
      exact takes_some <| runs_selectWith subject (choices.upcoming_tokens_ne_paren kind rest) <|
        choices.takes kind hending h

theorem Body.takes (kind : RoutineKind) (body : Body) {rest after : List Token} {ending : Ending}
    (hending : body.ending (opensBranch rest) = ending) (h : ending ≠ .misread)
    (hafter : EndsBlock (ending.left ++ rest) after) :
    Takes (some kind) (many statement?) (body.tokens kind ++ rest) after
      (·.map Statement.withoutLines = body.statements) := by
  match body with
  | .nil =>
      subst hending
      exact (takes_many_nil (takes_statement?_none hafter)).mono fun _ heq => by
        simp [heq, Body.statements]
  | .cons first others =>
      rw [Body.tokens, List.append_assoc]
      rw [Body.ending, ← others.opensBranch_tokens kind] at hending
      cases hfirst : first.ending (opensBranch (others.tokens kind ++ rest)) with
      | exact =>
          rw [hfirst] at hending
          have helse : upcoming (others.tokens kind ++ rest) ≠ .word "ELSE" := by
            cases others with
            | nil =>
                cases hending
                exact hafter.upcoming_ne_else
            | cons second others =>
                rw [Body.tokens, List.append_assoc]
                exact second.upcoming_tokens_ne_else kind _
          exact takes_many_cons (fun _ => agree_statement?)
            (first.takes kind hfirst (by simp) fun _ => helse) (others.takes kind hending h hafter)
      | early =>
          rw [hfirst] at hending
          cases others with
          | nil =>
              cases hending
              refine takes_many_cons (fun _ => agree_statement?)
                (first.takes kind hfirst (by simp) fun _ => by simp [Ending.left]) ?_
              exact (takes_many_nil (takes_statement?_none hafter)).mono fun _ heq => by
                simp [heq, Body.statements]
          | cons => exact absurd hending.symm h
      | misread =>
          rw [hfirst] at hending
          exact absurd hending.symm h

theorem Choices.takes (kind : RoutineKind) {subject : Option Variable} (choices : Choices subject)
    {rest : List Token} {ending : Ending} (hending : choices.ending (opensBranch rest) = ending)
    (h : ending ≠ .misread) :
    Takes (some kind) (branchesWith statement? (subject.map Variable.text))
      (choices.tokens kind ++ rest) (ending.left ++ rest)
      (·.withoutLines = .select choices.branches) := by
  match choices with
  | .done =>
      subst hending
      exact takes_branchesWith_done (opensBranch_end rest)
  | .otherwise body =>
      rw [Choices.tokens, List.cons_append, List.append_assoc]
      exact takes_branchesWith_otherwise <|
        body.takes kind (by rw [List.singleton_append, opensBranch_end]; exact hending) h
          (ending.endsBlock rest)
  | .when question body others =>
      rw [Choices.ending, ← others.opensBranch_tokens kind rest] at hending
      simp only [Choices.tokens, List.cons_append, List.append_assoc]
      cases hbody : body.ending (opensBranch (others.tokens kind ++ rest)) with
      | exact =>
          have hwhen := takes_whenWith? question
            (body.takes kind hbody (by simp) (others.endsBlock kind rest))
          rw [hbody] at hending
          refine takes_branchesWith_when hwhen ?_
          by_cases hdone : others.isDone = true
          · obtain rfl := Choices.eq_done_of_isDone hdone
            cases hnext : opensBranch rest with
            | true =>
                rw [hnext] at hending
                exact absurd hending.symm h
            | false =>
                rw [hnext] at hending
                cases hending
                exact takes_branchesWith_done hnext
          · rw [if_neg hdone]
            exact others.takes kind (by simpa [hdone] using hending) h
      | early =>
          have hwhen := takes_whenWith? question
            (body.takes kind hbody (by simp) (.last (others.tokens kind ++ rest)))
          rw [hbody] at hending
          refine takes_branchesWith_when hwhen ?_
          by_cases hdone : others.isDone = true
          · obtain rfl := Choices.eq_done_of_isDone hdone
            cases hending
            exact takes_branchesWith_done (opensBranch_end rest)
          · exact others.takes kind (by simpa [hdone] using hending) h
      | misread =>
          rw [hbody] at hending
          exact absurd hending.symm h

end

/-! ## Statements that are not -/

mutual

theorem Tree.never (kind : RoutineKind) {o : Bool} (tree : Tree o) {rest : List Token}
    (h : tree.ending (opensBranch rest) = .misread) :
    Never (some kind) statement? (tree.tokens kind ++ rest)
      (·.map Statement.withoutLines = some tree.statement) := by
  match tree with
  | .set .. => cases h
  | .ifThen guard body =>
      simp only [Tree.tokens, List.cons_append, List.append_assoc]
      rw [statement?_eq]
      apply runs_next
      exact never_some <| runs_conditionalWith guard <|
        (never_thenWith body.statement_ne_skip (body.never kind h)).mono fun _ heq => .inl heq
  | .ifElse guard body alternative =>
      simp only [Tree.tokens, List.cons_append, List.append_assoc]
      rw [statement?_eq]
      apply runs_next
      refine never_some (runs_conditionalWith guard ?_)
      have hthen : body.ending (opensBranch (.word "ELSE" :: (alternative.tokens kind ++ rest))) =
          body.ending false := by rw [opensBranch_else]
      rw [Tree.ending] at h
      cases hbody : body.ending false with
      | exact =>
          rw [hbody] at h
          exact never_thenWith_else alternative.statement_ne_skip
            (body.takes kind (hthen.trans hbody) (by simp) (by simp)) (alternative.never kind h)
      | early =>
          -- the END that is left over hides the ELSE
          exact (takes_thenWith (body.takes kind (hthen.trans hbody) (by simp) (by simp))
            (by simp [Ending.left])).never fun _ heq => by rw [heq]; simp [Tree.statement]
      | misread =>
          exact (never_thenWith body.statement_ne_skip
            (body.never kind (hthen.trans hbody))).mono fun _ heq => .inr ⟨_, heq⟩
  | .block body =>
      rw [Tree.tokens, List.cons_append, List.append_assoc]
      exact never_block <|
        body.never kind (by rw [List.singleton_append, opensBranch_end]; exact h)
  | .select subject choices =>
      simp only [Tree.tokens, List.cons_append, List.append_assoc]
      rw [statement?_eq]
      apply runs_next
      exact never_some <| runs_selectWith subject (choices.upcoming_tokens_ne_paren kind rest) <|
        choices.never kind h

theorem Body.never (kind : RoutineKind) (body : Body) {rest : List Token}
    (h : body.ending (opensBranch rest) = .misread) :
    Never (some kind) (many statement?) (body.tokens kind ++ rest)
      (·.map Statement.withoutLines = body.statements) := by
  match body with
  | .nil => cases h
  | .cons first others =>
      rw [Body.tokens, List.append_assoc]
      rw [Body.ending, ← others.opensBranch_tokens kind] at h
      cases hfirst : first.ending (opensBranch (others.tokens kind ++ rest)) with
      | exact =>
          rw [hfirst] at h
          cases others with
          | nil => cases h
          | cons second others =>
              have helse : upcoming ((Body.cons second others).tokens kind ++ rest) ≠
                  .word "ELSE" := by
                rw [Body.tokens, List.append_assoc]
                exact second.upcoming_tokens_ne_else kind _
              exact never_many_tail (fun _ => agree_statement?)
                (first.takes kind hfirst (by simp) fun _ => helse) (Body.never kind _ h)
      | early =>
          rw [hfirst] at h
          cases others with
          | nil => cases h
          | cons second others =>
              -- the block ends at the END that is left over, after the first statement
              have hend : Takes (some kind) (many statement?)
                  (.word "END" :: ((Body.cons second others).tokens kind ++ rest))
                  ((Body.cons second others).tokens kind ++ rest)
                  (·.map Statement.withoutLines = []) :=
                (takes_many_nil (takes_statement?_none (.last _))).mono fun _ heq => by simp [heq]
              refine (takes_many_cons (fun _ => agree_statement?)
                (first.takes kind hfirst (by simp) fun _ => by simp [Ending.left]) hend).never
                fun _ heq => ?_
              rw [heq]
              simp [Body.statements]
      | misread => exact never_many_head (first.never kind hfirst)

theorem Choices.never (kind : RoutineKind) {subject : Option Variable} (choices : Choices subject)
    {rest : List Token} (h : choices.ending (opensBranch rest) = .misread) :
    Never (some kind) (branchesWith statement? (subject.map Variable.text))
      (choices.tokens kind ++ rest) (·.withoutLines = .select choices.branches) := by
  match choices with
  | .done => cases h
  | .otherwise body =>
      rw [Choices.tokens, List.cons_append, List.append_assoc]
      exact never_branchesWith_otherwise <|
        body.never kind (by rw [List.singleton_append, opensBranch_end]; exact h)
  | .when question body others =>
      rw [Choices.ending, ← others.opensBranch_tokens kind rest] at h
      simp only [Choices.tokens, List.cons_append, List.append_assoc]
      cases hbody : body.ending (opensBranch (others.tokens kind ++ rest)) with
      | exact =>
          have hwhen := takes_whenWith? question
            (body.takes kind hbody (by simp) (others.endsBlock kind rest))
          rw [hbody] at h
          refine never_branchesWith_tail hwhen ?_
          by_cases hdone : others.isDone = true
          · obtain rfl := Choices.eq_done_of_isDone hdone
            cases hnext : opensBranch rest with
            | true => exact never_branchesWith_done hnext
            | false =>
                rw [hnext] at h
                cases h
          · rw [if_neg hdone]
            exact others.never kind (by simpa [hdone] using h)
      | early =>
          have hwhen := takes_whenWith? question
            (body.takes kind hbody (by simp) (.last (others.tokens kind ++ rest)))
          rw [hbody] at h
          refine never_branchesWith_tail hwhen ?_
          by_cases hdone : others.isDone = true
          · obtain rfl := Choices.eq_done_of_isDone hdone
            cases h
          · exact others.never kind (by simpa [hdone] using h)
      | misread => exact never_branchesWith_head (never_whenWith? question (body.never kind hbody))

end

end ClassSelection.Source
