import ClassSelection.Proofs.Reader.Assigned
import ClassSelection.Proofs.Reader.Until

/-!
# What a run dispatches

A run dispatches a SET or EXIT statement at the readings to which it comes with
such a keyword next (`ComesTo`).  The probe for a reading is the run that stops
there, so `exists_visits` lists these readings in their order.
-/

namespace ClassSelection

namespace Reader

variable {α β : Type}

/-! ## Sequences and loops -/

/-- Where no SET or EXIT comes, the probe does what the reader does. -/
theorem TracedAt.silent {probe : Reading → Reader α} {x : Reader α}
    {good : α → List Statement → Prop} {s : Reading} (hprobe : ∀ place, probe place s = x s)
    (hok : ∀ a s', x s = .ok a s' →
      s'.tokens.remaining ≤ s.tokens.remaining ∧ s'.assigned = s.assigned ∧ good a []) :
    TracedAt probe x good s := by
  refine ⟨[], by simp, fun place _ _ => hprobe place, .nil, by simp, fun a s' hrun => ?_,
    fun e s' hrun => ⟨[], _, .nil⟩⟩
  obtain ⟨hle, hassigned, hgood⟩ := hok a s' hrun
  refine ⟨hle, by simp, [], hgood, ?_⟩
  rw [hassigned]
  exact .nil

theorem Traced.const {x : Reader α} {good : α → List Statement → Prop} (hshrinks : Shrinks x)
    (hassigned : KeepsAssigned x) (hgood : ∀ a, good a []) : Traced (fun _ => x) x good := by
  refine fun s => .silent (fun _ => rfl) fun a s' hrun => ?_
  have hle := remaining_add_count_le hshrinks hrun
  exact ⟨by omega, hassigned s a s' hrun, hgood a⟩

section

variable {probe : Reading → Reader α} {f : α → Reader β} {good : β → List Statement → Prop}

theorem Traced.pure {a : β} (hgood : good a []) : Traced (fun _ => pure a) (Pure.pure a) good := by
  refine fun s => .silent (fun _ => rfl) fun b s' hrun => ?_
  cases hrun
  exact ⟨Nat.le_refl _, rfl, hgood⟩

theorem Traced.andThen {x : Reader α} {g : Reading → α → Reader β} (hshrinks : Shrinks x)
    (hassigned : KeepsAssigned x) (hf : ∀ a, Traced (fun place => g place a) (f a) good) :
    Traced (fun place => x >>= g place) (x >>= f) good := by
  have hx : Traced (fun _ => x) x fun _ marks => marks = [] :=
    .const hshrinks hassigned fun _ => rfl
  refine hx.bind fun a marks hmarks => ?_
  subst hmarks
  exact hf a

end

abbrev Found (marksOf : α → List Statement) (found : Option α) (marks : List Statement) : Prop :=
  marks = found.elim [] marksOf

theorem Traced.many {probe : Reading → Reader (Option α)} {item : Reader (Option α)}
    {marksOf : α → List Statement} (h : Traced probe item (Found marksOf)) :
    Traced (fun place => many (probe place)) (many item)
      fun values marks => marks = values.flatMap marksOf := by
  intro s
  induction hleft : s.tokens.remaining using Nat.strongRecOn generalizing s with
  | _ n ih =>
      subst hleft
      refine TracedAt.congr ?_ (fun place _ => many_run_eq (probe place) s) (many_run_eq item s)
      refine (h s).bind fun found s' marks hrun hmarks => ?_
      cases found with
      | none =>
          subst hmarks
          refine TracedAt.congr (Traced.pure ?_ s') (fun _ _ => rfl) rfl
          rfl
      | some first =>
          subst hmarks
          by_cases hlt : s'.tokens.remaining < s.tokens.remaining
          · refine TracedAt.congr ?_ (fun _ _ => if_pos hlt) (if_pos hlt)
            refine (ih _ hlt s' rfl).bind fun others s'' marks _ hmarks => Traced.pure ?_ s''
            rw [hmarks, List.append_nil]
            rfl
          · refine TracedAt.congr (Traced.pure ?_ s') (fun _ _ => if_neg hlt) (if_neg hlt)
            simp

/-! ## Statements -/

abbrev Marked (statement : Statement) (marks : List Statement) : Prop :=
  marks = statement.marks

theorem marks_getD (found : Option Statement) :
    (found.getD .skip).marks = found.elim [] Statement.marks := by
  cases found <;> rfl

section

variable {probe : Reading → Reader (Option Statement)} {nested : Reader (Option Statement)}

theorem traced_blockWith (h : Traced probe nested (Found Statement.marks)) :
    Traced (fun place => blockWith (probe place)) (blockWith nested) Marked := by
  refine h.many.bind fun statements marks hmarks => .pure ?_
  rw [hmarks, List.append_nil, Marked, Statement.marks_sequence]

theorem traced_thenWith (h : Traced probe nested (Found Statement.marks)) (guard : Expr) :
    Traced (fun place => thenWith (probe place) guard) (thenWith nested guard) Marked := by
  refine h.bind fun body marks hmarks => ?_
  refine .andThen (shrinks_accept rfl) (.accept _) fun taken => ?_
  cases taken with
  | true =>
      refine h.bind fun alternative marks' hmarks' => .pure ?_
      simp only [Marked, hmarks, hmarks', Statement.marks, marks_getD, List.append_nil]
  | false =>
      refine .pure ?_
      simp only [Marked, hmarks, Statement.marks, marks_getD, List.append_nil]

theorem traced_conditionalWith (h : Traced probe nested (Found Statement.marks)) :
    Traced (fun place => conditionalWith (probe place)) (conditionalWith nested) Marked := by
  refine .andThen shrinks_expr keepsAssigned_expr fun guard => ?_
  refine .andThen Shrinks.next KeepsAssigned.next fun token => ?_
  by_cases hthen : token == .word "THEN"
  · simp only [hthen, if_true]
    exact traced_thenWith h guard
  · simp only [hthen]
    exact .andThen (.missing _ _) (.missing _ _) fun _ => traced_thenWith h guard

theorem traced_whenWith? (h : Traced probe nested (Found Statement.marks))
    (subject : Option String) :
    Traced (fun place => whenWith? (probe place) subject) (whenWith? nested subject)
      (Found fun branch => branch.2.marks) := by
  have hbody (guard : Expr) : Traced
      (fun place => do
        expect ')' "closing parenthesis on WHEN"
        let body ← blockWith (probe place)
        return some (guard, body))
      (do
        expect ')' "closing parenthesis on WHEN"
        let body ← blockWith nested
        return some (guard, body))
      (Found fun branch => branch.2.marks) := by
    refine .andThen (.expect _ _) (.expect _ _) fun _ => ?_
    refine (traced_blockWith h).bind fun body marks hmarks => .pure ?_
    rw [hmarks, List.append_nil]
    rfl
  refine .andThen (shrinks_accept rfl) (.accept _) fun taken => ?_
  cases taken with
  | true =>
      refine .andThen (.expect _ _) (.expect _ _) fun _ => ?_
      cases subject with
      | some subject =>
          exact .andThen (shrinks_whenValues subject) (keepsAssigned_whenValues subject) hbody
      | none => exact .andThen shrinks_expr keepsAssigned_expr hbody
  | false => exact .pure rfl

theorem traced_branchesWith (h : Traced probe nested (Found Statement.marks))
    (subject : Option String) :
    Traced (fun place => branchesWith (probe place) subject) (branchesWith nested subject)
      Marked := by
  refine (traced_whenWith? h subject).many.bind fun whens marks hmarks => ?_
  refine .andThen (shrinks_accept rfl) (.accept _) fun taken => ?_
  cases taken with
  | true =>
      refine (traced_blockWith h).bind fun body marks' hmarks' => .pure ?_
      simp only [Marked, hmarks, hmarks', Statement.marks, Branches.marks_prepend, Branches.marks,
        List.append_nil]
  | false =>
      refine .pure ?_
      simp only [Marked, hmarks, Statement.marks, Branches.marks_prepend, Branches.marks,
        List.append_nil]

theorem traced_selectWith (h : Traced probe nested (Found Statement.marks)) :
    Traced (fun place => selectWith (probe place)) (selectWith nested) Marked := by
  refine .andThen (shrinks_accept rfl) (.accept _) fun taken => ?_
  cases taken with
  | true =>
      refine .andThen shrinks_selectSubject keepsAssigned_selectSubject fun subject => ?_
      refine .andThen (.expect _ _) (.expect _ _) fun _ => ?_
      exact .andThen (.pure _) (.pure _) fun _ => traced_branchesWith h _
  | false => exact .andThen (.pure _) (.pure _) fun _ => traced_branchesWith h _

end

section

variable {probe : Reading → Reader (Option Statement)} {nested : Reader (Option Statement)}
  {s : Reading}

theorem tracedAt_next {g : Reading → Token → Reader α} {f : Token → Reader α}
    {good : α → List Statement → Prop}
    (h : Traced (fun place => g place s.tokens.next.1) (f s.tokens.next.1) good) :
    TracedAt (fun place => next >>= g place) (next >>= f) good s := by
  have hnext : Traced (fun _ => next) next fun _ marks => marks = [] :=
    .const Shrinks.next KeepsAssigned.next fun _ => rfl
  refine (hnext s).bind fun token s' marks hrun hmarks => ?_
  cases hrun
  subst hmarks
  exact h _

theorem statementWith?_branch {tokens : TokenStream}
    (hbranch : BeginsBranch s.tokens.next.1)
    (htokens : s.tokens.next.2.pushBack? s.tokens.next.1 = some tokens) :
    statementWith? nested s = .ok none { s with tokens } := by
  rw [statementWith?, bind_run, next_run]
  obtain hkeyword | hkeyword := hbranch
  · simp only [hkeyword, bind_run, putBack, htokens]
    rfl
  · simp only [hkeyword, bind_run, putBack, htokens]
    rfl

/-- A statement other than a SET or EXIT visits what is inside it. -/
theorem tracedAt_statementWith? (h : Traced probe nested (Found Statement.marks))
    (hs : ¬s.AtMark) :
    TracedAt (fun place => statementWith? (probe place)) (statementWith? nested)
      (Found Statement.marks) s := by
  have hsome {probe : Reading → Reader Statement} {x : Reader Statement}
      (hx : Traced probe x Marked) : Traced (fun place => do return some (← probe place))
        (do return some (← x)) (Found Statement.marks) := by
    refine hx.bind fun statement marks hmarks => .pure ?_
    rw [hmarks, List.append_nil]
    rfl
  have hskip {x : Reader Unit} (hshrinks : Shrinks x) (hassigned : KeepsAssigned x) :
      Traced (fun _ => do x; return some Statement.skip) (do x; return some Statement.skip)
        (Found Statement.marks) :=
    .andThen hshrinks hassigned fun _ => .pure rfl
  by_cases hbranch : BeginsBranch s.tokens.next.1
  · obtain ⟨tokens, htokens⟩ := s.tokens.exists_pushBack?_next s.tokens.next.1
    have hrun (nested : Reader (Option Statement)) :
        statementWith? nested s = .ok none { s with tokens } :=
      statementWith?_branch hbranch htokens
    refine .silent (fun place => by rw [hrun, hrun]) fun found s' hok => ?_
    rw [hrun] at hok
    cases hok
    have := TokenStream.remaining_pushBack? htokens
    have := s.tokens.remaining_next_add_weight_le
    exact ⟨by dsimp only; omega, rfl, rfl⟩
  refine tracedAt_next ?_
  generalize hkeyword : Keyword.ofToken? s.tokens.next.1 = keyword
  cases keyword with
  | none =>
      by_cases hend : s.tokens.next.1 == .endOfSource
      · simp only [hend, if_true]
        exact .pure rfl
      · simp only [hend]
        exact hskip (.report _) (.report _)
  | some keyword =>
      have htoken := eq_word_of_keyword hkeyword
      cases keyword with
      | proc => exact hskip shrinks_proc keepsAssigned_proc
      | filtlist => exact hskip shrinks_filtlist keepsAssigned_filtlist
      | write => exact hskip shrinks_write keepsAssigned_write
      | set => exact absurd (.inl htoken) hs
      | exit => exact absurd (.inr htoken) hs
      | doBlock =>
          refine (traced_blockWith h).bind fun body marks hmarks => .pure ?_
          rw [hmarks, List.append_nil]
          rfl
      | ifThen => exact hsome (traced_conditionalWith h)
      | select => exact hsome (traced_selectWith h)
      | endBlock => exact .pure rfl
      | when => exact absurd (.inl hkeyword) hbranch
      | otherwise => exact absurd (.inr hkeyword) hbranch

end

theorem statementWith?_mark (hs : s.AtMark) (nested : Reader (Option Statement)) :
    statementWith? nested s = statement? s := by
  rw [statement?_eq, statementWith?, statementWith?, bind_run, bind_run, next_run]
  rcases hs with hkeyword | hkeyword <;> rw [hkeyword] <;> rfl

/-! ## Runs -/

section

variable {probe : Reading → Reader (Option Statement)} {nested : Reader (Option Statement)}

theorem traced_untilWith? (h : Traced probe nested (Found Statement.marks)) :
    Traced (fun place => untilWith? place (probe place)) (statementWith? nested)
      (Found Statement.marks) := by
  intro s
  by_cases hs : s.AtMark
  · have hstatement := statementWith?_mark hs
    refine ⟨[s], ?_, fun place _ hplace => ?_, List.pairwise_singleton _ _, ?_,
      fun found s' hrun => ?_, fun e s' hrun => ?_⟩
    · intro place hplace
      obtain rfl := List.mem_singleton.1 hplace
      exact if_pos rfl
    · have hne : s ≠ place := fun heq => hplace (List.mem_singleton.2 heq.symm)
      rw [untilWith?, if_neg hne, hstatement, hstatement]
    · intro place hplace
      obtain rfl := List.mem_singleton.1 hplace
      exact ⟨hs, Nat.le_refl _⟩
    · rw [hstatement] at hrun ⊢
      obtain ⟨mark, rfl, hmark, hassigned, -⟩ := mark_of_statement? hs hrun
      have htaken := remaining_add_count_le (fun _ => agree_statement?) hrun
      simp only [ifSome] at htaken
      refine ⟨by omega, ?_, [mark], hmark.symm, ?_⟩
      · intro place hplace
        obtain rfl := List.mem_singleton.1 hplace
        exact ⟨mark, s', hrun, Nat.le_refl _⟩
      · rw [hassigned]
        exact .completed rfl hrun .nil
    · rw [hstatement] at hrun ⊢
      exact ⟨[], _, .failed rfl hrun hrun⟩
  · refine (tracedAt_statementWith? h hs).congr (fun place hplace => if_neg ?_) rfl
    rintro rfl
    exact hs hplace

theorem traced_statement? : Traced statementUntil statement? (Found Statement.marks) := by
  have hlevels (depth : Nat) : Traced (fun place => (untilWith? place)^[depth] (pure none))
      (statementWith?^[depth] (pure none)) (Found Statement.marks) := by
    induction depth with
    | zero => exact .pure rfl
    | succ depth ih =>
        simp only [Function.iterate_succ_apply']
        exact traced_untilWith? ih
  have hends (s : Reading) : EndsAt statementWith? statement? s :=
    endsAt_of_agree statement?_eq (fun _ _ _ h => agree_statementWith? h) s
  refine fun s => (hlevels (s.tokens.remaining + 2) s).congr (fun place _ => ?_) ?_
  · exact (endsAt_statementUntil s _ (Nat.le_refl _) _).symm
  · exact (hends s _ (Nat.le_refl _) _).symm

theorem traced_topLevelWith? (h : Traced probe nested (Found Statement.marks)) :
    Traced (fun place => topLevelWith? (probe place)) (topLevelWith? nested)
      (Found Statement.marks) := by
  have hstray : Traced (fun _ => strayBranch) strayBranch fun _ marks => marks = [] :=
    fun s => .silent (fun _ => rfl) fun _ s' hrun =>
      ⟨(strayBranch_eq_ok hrun).2.1, keepsAssigned_strayBranch s _ s' hrun, rfl⟩
  refine .andThen Shrinks.get KeepsAssigned.get fun reading => ?_
  cases reading.tokens.exhausted with
  | true => exact .pure rfl
  | false =>
      refine (traced_blockWith h).bind fun block marks hmarks => ?_
      refine hstray.bind fun _ marks' hmarks' => .pure ?_
      rw [hmarks, hmarks', List.append_nil, List.append_nil]
      rfl

theorem traced_routineBody : Traced routineUntil routineBody Marked := by
  refine (traced_topLevelWith? traced_statement?).many.bind fun blocks marks hmarks => .pure ?_
  rw [hmarks, List.append_nil, Marked, Statement.marks_sequence]

end

/-- A run visits the readings at which it dispatches a SET or an EXIT, one after the other. -/
theorem exists_orderedVisits (source : String) : ∃ places marks last,
    (∀ place, place ∈ places ↔ ComesTo source place ∧ place.AtMark) ∧
    places.Pairwise Precedes ∧
    Visits (routineBody (.ofSource source)) false places marks last ∧
    ∀ body s, routineBody (.ofSource source) = .ok body s → marks = body.marks := by
  obtain ⟨places, hplaces⟩ := traced_routineBody (.ofSource source)
  have hfault := (keeps_routineBody _ (Reading.sound_ofSource source) (List.nil_subset _)).2
  have hmem (place : Reading) : place ∈ places ↔ ComesTo source place ∧ place.AtMark := by
    refine ⟨fun hplace => ⟨hplaces.stops place hplace, (hplaces.within place hplace).1⟩, ?_⟩
    rintro ⟨hcomes, hmark⟩
    by_contra hplace
    have hrun := (hplaces.passes place hmark hplace).symm.trans hcomes
    exact (hfault _ _ hrun).ne_tokenPutBackTwice 0 rfl
  cases hrun : routineBody (.ofSource source) with
  | ok body s =>
      obtain ⟨-, -, marks, hmarks, hvisits⟩ := hplaces.ok body s hrun
      rw [hrun] at hvisits
      refine ⟨places, marks, _, hmem, hplaces.ordered, hvisits, ?_⟩
      rintro _ _ ⟨⟩
      exact hmarks
  | error e s =>
      obtain ⟨marks, last, hvisits⟩ := hplaces.error e s hrun
      rw [hrun] at hvisits
      exact ⟨places, marks, last, hmem, hplaces.ordered, hvisits, fun _ _ h => by cases h⟩

theorem exists_visits (source : String) : ∃ places marks last,
    (∀ place, place ∈ places ↔ ComesTo source place ∧ place.AtMark) ∧
    places.Pairwise (fun place later => later.tokens.remaining < place.tokens.remaining) ∧
    Visits (routineBody (.ofSource source)) false places marks last ∧
    ∀ body s, routineBody (.ofSource source) = .ok body s → marks = body.marks := by
  obtain ⟨places, marks, last, hmem, hordered, hvisits, hmarks⟩ := exists_orderedVisits source
  exact ⟨places, marks, last, hmem, hordered.imp Precedes.remaining_lt, hvisits, hmarks⟩

end Reader

end ClassSelection
