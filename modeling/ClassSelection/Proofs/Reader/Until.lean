import ClassSelection.Proofs.Reader.Lines

/-!
# Where a run comes to

`routineUntil place` reads a routine as `routineBody` does, but stops where it
comes to a statement at the reading `place`.  Up to there the two have done the
same, so what a run comes to does not depend on what follows: two sources that
part behind a place have the same outcome if they have from that place on
(`endAlike_of_comesTo`).
-/

namespace ClassSelection.Reader

variable {bound : Int} {place : Reading} {fork : Fork} {source other : String}

def untilWith? (place : Reading) (nested : Reader (Option Statement)) : Reader (Option Statement) :=
  fun s => if s = place then .error (.tokenPutBackTwice 0) s else statementWith? nested s

/-- Reads a statement as `statement?` does, but stops where it comes to the place. -/
def statementUntil (place : Reading) : Reader (Option Statement) :=
  nest (untilWith? place) (pure none)

def routineUntil (place : Reading) : Reader Statement :=
  Statement.sequence <$> many (topLevelWith? (statementUntil place))

def ComesTo (source : String) (place : Reading) : Prop :=
  routineUntil place (.ofSource source) = .error (.tokenPutBackTwice 0) place

instance decidableEqResult {ε σ α : Type} [DecidableEq ε] [DecidableEq σ] [DecidableEq α] :
    DecidableEq (EStateM.Result ε σ α)
  | .ok a s, .ok b t => decidable_of_iff (a = b ∧ s = t) (by simp)
  | .error e s, .error e' t => decidable_of_iff (e = e' ∧ s = t) (by simp)
  | .ok _ _, .error _ _ => isFalse (by simp)
  | .error _ _, .ok _ _ => isFalse (by simp)

instance : Decidable (ComesTo source place) :=
  inferInstanceAs (Decidable (_ = _))

/-! ## The levels of a run that stops -/

theorem agree_untilWith? {f g : Reader (Option Statement)} (h : Agree (bound - 1) ifSome f g) :
    Agree bound ifSome (untilWith? place f) (untilWith? place g) := by
  intro s hs
  unfold untilWith?
  split
  · exact ⟨rfl, fun _ _ hrun => by cases hrun⟩
  · exact agree_statementWith? h s hs

theorem endsAt_statementUntil (s : Reading) : EndsAt (untilWith? place) (statementUntil place) s :=
  endsAt_of_agree (nest_spec fun _ _ _ h => agree_untilWith? h).1
    (fun _ _ _ h => agree_untilWith? h) s

theorem agree_statementUntil : Agree bound ifSome (statementUntil place) (statementUntil place) :=
  (nest_spec fun _ _ _ h => agree_untilWith? h).2 bound

/-- Stands below the last level of a probe: what it has not seen lies beyond every fork. -/
def skipToEnd : Reader (Option Statement) := fun s =>
  .error (.tokenPutBackTwice 0) { s with tokens := { s.tokens with rest := [] } }

theorem inStep_skipToEnd : InStep fork skipToEnd statement? := by
  have hbeyond (s : Reading) : (final (skipToEnd s)).tokens.Beyond fork := by
    simp [TokenStream.Beyond, final, skipToEnd, List.length_pos_iff, fork.ne_nil]
  have hstatement : InStep fork statement? statement? := inStep_statement?
  refine ⟨fun _ s _ => ⟨rfl, fun _ _ hrun => by cases hrun⟩, hstatement.taken, fun s t => ?_⟩
  refine ⟨fun hrun => ?_, (hstatement.tracks s t).alike, fun _ => .beyond (hbeyond s),
    fun _ => hbeyond s⟩
  cases hrun

theorem ComesTo.sound (h : ComesTo source place) : place.Sound source := by
  by_contra hplace
  have hlevel (nested : Reader (Option Statement)) (hnested : KeepsStatements source nested) :
      KeepsStatements source (untilWith? place nested) := by
    intro s hs hnames
    have hne : s ≠ place := by
      rintro rfl
      exact hplace hs
    rw [untilWith?, if_neg hne]
    exact keeps_statementWith? hnested s hs hnames
  have hstatement : KeepsStatements source (statementUntil place) :=
    keeps_nest (keeps_pure fun _ _ => by simp) hlevel
  have hroutine : Keeps source [] (routineUntil place) Any :=
    (keeps_many_any ((keeps_topLevelWith? hstatement).mono fun _ _ _ _ => trivial)).andThen
      fun _ => keeps_pure fun _ _ => trivial
  have hfault :=
    (hroutine _ (Reading.sound_ofSource source) (List.Subset.refl _)).2 _ _ h
  exact hfault.ne_tokenPutBackTwice 0 rfl

theorem topLevelWith?_run_exhausted {nested : Reader (Option Statement)} {s : Reading}
    (h : s.tokens.exhausted = true) : topLevelWith? nested s = .ok none s := by
  change (if s.tokens.exhausted then _ else _ : Reader (Option Statement)) s = _
  rw [if_pos h]
  rfl

variable (hplace : ∀ t, place.Forked fork t →
  EndAlike (Option.Rel Statement.Alike) (statement? place) (statement? t))

include hplace

theorem inStep_untilWith? {probe : Reader (Option Statement)} (h : InStep fork probe statement?) :
    InStep fork (untilWith? place probe) statement? := by
  refine ⟨fun _ => agree_untilWith? (h.takenProbe _), fun _ => agree_statement?, fun s t => ?_⟩
  have hlevel := (inStep_statementWith? h).tracks s t
  rw [← statement?_eq] at hlevel
  unfold untilWith?
  split
  · rename_i heq
    subst heq
    refine ⟨fun hrun => ?_, hlevel.alike, fun hst => .stopped (hplace t hst), fun hs => hs⟩
    cases hrun
  · exact hlevel

theorem inStep_statementUntil : InStep fork (statementUntil place) statement? := by
  have hlevels (depth : Nat) : InStep fork ((untilWith? place)^[depth] skipToEnd) statement? := by
    induction depth with
    | zero => exact inStep_skipToEnd
    | succ depth ih =>
        rw [Function.iterate_succ_apply']
        exact inStep_untilWith? hplace ih
  refine ⟨fun _ => agree_statementUntil, fun _ => agree_statement?, fun s t => ?_⟩
  rw [← endsAt_statementUntil s _ (Nat.le_refl _) skipToEnd]
  exact (hlevels _).tracks s t

/-! ## The blocks of a run that stops -/

theorem progresses_topLevelUntil :
    Progresses (Reading.Sound source) (topLevelWith? (statementUntil place)) := by
  intro s block s' hs hrun
  have htracks := tracks_topLevelWith? (inStep_statementUntil hplace)
  obtain ⟨hrun', -⟩ := (htracks s s).ok hrun
  obtain ⟨hs', hlt | hnone⟩ := topLevel?_progresses s block s' hs hrun'
  · exact ⟨hs', .inl hlt⟩
  · exact ⟨hs', .inr (topLevelWith?_run_exhausted (topLevel?_eq_none hnone).2)⟩

theorem endAlike_of_comesTo (hfork : (Reading.ofSource source).Forked fork (.ofSource other))
    (hcomes : ComesTo source place) (hbefore : ¬place.tokens.Beyond fork) :
    EndAlike Statement.Alike (routineBody (.ofSource source)) (routineBody (.ofSource other)) := by
  have hends := (tracksAt_routine (progresses_topLevelUntil hplace)
    (inStep_statementUntil hplace)).forked hfork
  change EndForked _ _ (routineUntil place _) (routineBody _) (routineBody _) at hends
  rw [hcomes] at hends
  exact hends.of_error hbefore

end ClassSelection.Reader
