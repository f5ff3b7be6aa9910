import ClassSelection.Proofs.Reader.Soundness
import ClassSelection.Proofs.Table.Emission
import Mathlib.Logic.Function.Iterate

/-!
# Every run ends

The loops and recursions of the readers compare what is left before they go on.
Without that comparison they come to the same results: unrolled often enough,
they never get to what stands below the last level (`EndsAt`).  For the blocks
of a routine this takes more than that an item leaves less, since the last
block may end at the end of the source without having read anything.
-/

namespace ClassSelection

namespace Reader

variable {α β : Type} {source : String}

/-! ## Loops and recursions without a comparison -/

def round (item : Reader (Option α)) (later : Reader (List α)) : Reader (List α) := do
  match ← item with
  | none => return []
  | some first => return first :: (← later)

section

variable {item : Reader (Option α)} {later : Reader (List α)} {s s' : Reading}

theorem round_run_none (h : item s = .ok none s') : round item later s = .ok [] s' := by
  rw [round, bind_run, h]
  rfl

theorem round_run_some {first : α} (h : item s = .ok (some first) s') :
    round item later s = (do return first :: (← later) : Reader (List α)) s' := by
  rw [round, bind_run, h]

theorem round_congr {later' : Reader (List α)}
    (h : ∀ a s', item s = .ok (some a) s' → later s' = later' s') :
    round item later s = round item later' s := by
  rw [round, round, bind_run, bind_run]
  cases hrun : item s with
  | error e s' => rfl
  | ok found s' =>
      cases found with
      | none => rfl
      | some first =>
          dsimp only
          rw [bind_run, bind_run, h first s' hrun]

end

/-- At this reading the plain recursion through `level` ends with what the reader gives: as many
levels as could take what is left to read, and two more, never get to what is below them. -/
def EndsAt (level : Reader α → Reader α) (reader : Reader α) (s : Reading) : Prop :=
  ∀ depth, s.tokens.remaining + 2 ≤ depth → ∀ below, level^[depth] below s = reader s

theorem endsAt_of_agree {count : α → Int} {level : Reader α → Reader α} {reader : Reader α}
    (heq : reader = level reader)
    (h : ∀ bound f g, Agree (bound - 1) count f g → Agree bound count (level f) (level g))
    (s : Reading) : EndsAt level reader s := by
  have hlevels (depth : Nat) (below : Reader α) :
      Agree (depth - 1) count (level^[depth] below) reader := by
    induction depth with
    | zero =>
        -- no reading has less than nothing left
        intro s hs
        omega
    | succ depth ih =>
        rw [Function.iterate_succ_apply', heq]
        exact h _ _ _ (by simpa [← heq] using ih)
  intro depth hdepth below
  exact (hlevels depth below s (by omega)).1

theorem remaining_add_count_le {count : α → Int} {reader : Reader α}
    (h : ∀ bound, Agree bound count reader reader) {s s' : Reading} {a : α}
    (hrun : reader s = .ok a s') : (s'.tokens.remaining : Int) + count a ≤ s.tokens.remaining :=
  (h _ s (Int.le_refl _)).2 a s' hrun

/-- From a reading of the given kind, an item leaves such a reading, with less to read or with no
item to come. -/
def Progresses (kept : Reading → Prop) (item : Reader (Option α)) : Prop :=
  ∀ s a s', kept s → item s = .ok (some a) s' →
    kept s' ∧ (s'.tokens.remaining < s.tokens.remaining ∨ item s' = .ok none s')

namespace Progresses

variable {kept : Reading → Prop} {item : Reader (Option α)}

theorem of_agree (h : ∀ bound, Agree bound ifSome item item) :
    Progresses (fun _ => True) item := by
  intro s a s' _ hrun
  have hle := remaining_add_count_le h hrun
  simp only [ifSome] at hle
  exact ⟨trivial, .inl (by omega)⟩

theorem many_eq_round (h : Progresses kept item) {s : Reading} (hs : kept s) :
    many item s = round item (many item) s := by
  cases hrun : item s with
  | error e s' => rw [many_run_error hrun, round, bind_run, hrun]
  | ok found s' =>
      cases found with
      | none => rw [many_run_none hrun, round_run_none hrun]
      | some first =>
          obtain ⟨-, hprogress⟩ := h s first s' hs hrun
          rw [round_run_some hrun, bind_run, many, hrun]
          by_cases hlt : s'.tokens.remaining < s.tokens.remaining
          · simp only [if_pos hlt]
            cases many item s' <;> rfl
          · simp only [if_neg hlt, many_run_none (hprogress.resolve_left hlt)]
            rfl

theorem endsAt (h : Progresses kept item) {s : Reading} (hs : kept s) :
    EndsAt (round item) (many item) s := by
  induction hleft : s.tokens.remaining using Nat.strongRecOn generalizing s with
  | _ n ih =>
      subst hleft
      intro depth hdepth below
      -- one level for this item, and one to find that no item follows the last
      obtain ⟨depth, rfl⟩ : ∃ d, depth = d + 2 := ⟨depth - 2, by omega⟩
      rw [Function.iterate_succ_apply', h.many_eq_round hs]
      refine round_congr fun a s' hrun => ?_
      obtain ⟨hs', hlt | hnone⟩ := h s a s' hs hrun
      · exact ih _ hlt hs' rfl (depth + 1) (by omega) below
      · rw [Function.iterate_succ_apply', round_run_none hnone, many_run_none hnone]

theorem exists_last (h : Progresses kept item) {s final : Reading} {found : List α} (hs : kept s)
    (hrun : many item s = .ok found final) : ∃ last, kept last ∧ item last = .ok none final := by
  induction hleft : s.tokens.remaining using Nat.strongRecOn generalizing s found with
  | _ n ih =>
      subst hleft
      rw [h.many_eq_round hs, round] at hrun
      obtain ⟨first, s', hitem, hlater⟩ := bind_eq_ok.1 hrun
      cases first with
      | none =>
          cases hlater
          exact ⟨s, hs, hitem⟩
      | some first =>
          obtain ⟨others, s'', hmany, hfinal⟩ := bind_eq_ok.1 hlater
          cases hfinal
          obtain ⟨hs', hlt | hnone⟩ := h s first s' hs hitem
          · exact ih _ hlt hs' hmany rfl
          · rw [many_run_none hnone] at hmany
            cases hmany
            exact ⟨_, hs', hnone⟩

end Progresses

/-! ## The blocks of a routine -/

def BeginsBranch (token : Token) : Prop :=
  Keyword.ofToken? token = some .when ∨ Keyword.ofToken? token = some .otherwise

theorem BeginsBranch.weight {token : Token} (h : BeginsBranch token) : token.weight = 1 :=
  Token.weight_of_ne (h.elim ne_endOfSource_of_keyword ne_endOfSource_of_keyword)

theorem some_ne_none {x : Reader β} {f : β → α} {s s' : Reading} :
    (do return some (f (← x)) : Reader (Option α)) s ≠ .ok none s' := by
  intro h
  obtain ⟨_, _, -, h⟩ := bind_eq_ok.1 h
  cases h

theorem next_bind_eq_ok {f : Token → Reader α} {s s' : Reading} {a : α} :
    (next >>= f) s = .ok a s' ↔
      f s.tokens.next.1 { s with tokens := s.tokens.next.2 } = .ok a s' := by
  rw [bind_run, next_run]

theorem putBack_eq_ok {token : Token} {s s' : Reading} (h : putBack token s = .ok () s') :
    s.tokens.pushBack? token = some s'.tokens := by
  unfold putBack at h
  split at h
  · rename_i tokens htokens
    cases h
    exact htokens
  · cases h

/-- Where there is no statement, an END has been taken, a branch is next or the source has ended. -/
theorem statement?_eq_none {s s' : Reading} (hs : s.Sound source)
    (h : statement? s = .ok none s') :
    s'.tokens.remaining < s.tokens.remaining ∨ BeginsBranch s'.tokens.next.1 ∨
      s'.tokens.exhausted = true := by
  rw [statement?_eq] at h
  replace h := next_bind_eq_ok.1 h
  have hbranch (hkeyword : BeginsBranch s.tokens.next.1)
      (h : (do putBack s.tokens.next.1; return none : Reader (Option Statement))
        { s with tokens := s.tokens.next.2 } = .ok none s') : BeginsBranch s'.tokens.next.1 := by
    obtain ⟨_, last, hback, hlast⟩ := bind_eq_ok.1 h
    cases hlast
    rwa [TokenStream.next_pushBack? (putBack_eq_ok hback)]
  cases hkeyword : Keyword.ofToken? s.tokens.next.1 with
  | none =>
      rw [hkeyword] at h
      dsimp only at h
      split at h
      · rename_i hend
        cases h
        exact .inr (.inr (hs.tokens.next.eq_end_iff.1 (by simpa using hend)))
      · exact absurd h some_ne_none
  | some keyword =>
      rw [hkeyword] at h
      cases keyword with
      | proc | filtlist | write | set | exit | doBlock | ifThen | select =>
          exact absurd h some_ne_none
      | endBlock =>
          cases h
          exact .inl (TokenStream.remaining_next_lt (ne_endOfSource_of_keyword hkeyword))
      | when => exact .inr (.inl (hbranch (.inl hkeyword) h))
      | otherwise => exact .inr (.inl (hbranch (.inr hkeyword) h))

theorem tokens_strayBranch_of_branch {s s' : Reading} (hbranch : BeginsBranch s.tokens.next.1)
    (h : strayBranch s = .ok () s') : s'.tokens = s.tokens.next.2 := by
  replace h := next_bind_eq_ok.1 h
  rcases hbranch with hkeyword | hkeyword <;> rw [hkeyword] at h <;> cases h <;> rfl

theorem tokens_strayBranch_of_not_branch {s s' : Reading}
    (hbranch : ¬BeginsBranch s.tokens.next.1) (h : strayBranch s = .ok () s') :
    s.tokens.next.2.pushBack? s.tokens.next.1 = some s'.tokens := by
  replace h := next_bind_eq_ok.1 h
  cases hkeyword : Keyword.ofToken? s.tokens.next.1 with
  | none =>
      rw [hkeyword] at h
      exact putBack_eq_ok h
  | some keyword =>
      rw [hkeyword] at h
      cases keyword with
      | when => exact absurd (.inl hkeyword) hbranch
      | otherwise => exact absurd (.inr hkeyword) hbranch
      | _ => exact putBack_eq_ok h

theorem strayBranch_eq_ok {s s' : Reading} (h : strayBranch s = .ok () s') :
    (BeginsBranch s.tokens.next.1 → s'.tokens.remaining < s.tokens.remaining) ∧
      s'.tokens.remaining ≤ s.tokens.remaining ∧
      (s.tokens.exhausted = true → s'.tokens.exhausted = true) := by
  have hnext := s.tokens.remaining_next_add_weight_le
  by_cases hbranch : BeginsBranch s.tokens.next.1
  · have hweight := hbranch.weight
    rw [tokens_strayBranch_of_branch hbranch h]
    exact ⟨fun _ => by omega, by omega, TokenStream.exhausted_next⟩
  · have htokens := tokens_strayBranch_of_not_branch hbranch h
    have hremaining := TokenStream.remaining_pushBack? htokens
    refine ⟨fun h => absurd h hbranch, by omega, fun h => ?_⟩
    rw [TokenStream.exhausted_pushBack? htokens]
    exact TokenStream.exhausted_next h

theorem topLevel?_eq_none {s s' : Reading} (h : topLevel? s = .ok none s') :
    s' = s ∧ s.tokens.exhausted = true := by
  cases hexhausted : s.tokens.exhausted with
  | true =>
      rw [topLevel?_run_exhausted hexhausted] at h
      cases h
      exact ⟨rfl, rfl⟩
  | false =>
      rw [topLevel?_run hexhausted] at h
      obtain ⟨_, _, -, h⟩ := bind_eq_ok.1 h
      exact absurd h some_ne_none

/-- A block takes something, if no more than the END or the branch that ended it, unless the source
has ended in it. -/
theorem topLevel?_progresses : Progresses (Reading.Sound source) topLevel? := by
  intro s block s' hs h
  have hs' : s'.Sound source := ((keeps_topLevel? s hs (List.Subset.refl _)).1 _ _ h).1
  refine ⟨hs', ?_⟩
  have hopen : s.tokens.exhausted = false := by
    by_contra hexhausted
    rw [topLevel?_run_exhausted (by simpa using hexhausted)] at h
    cases h
  rw [topLevel?_run hopen] at h
  obtain ⟨_, middle, hblock, h⟩ := bind_eq_ok.1 h
  obtain ⟨_, _, hstray, h⟩ := bind_eq_ok.1 h
  cases h
  obtain ⟨statements, _, hstatements, hsequence⟩ := bind_eq_ok.1 hblock
  cases hsequence
  have hprogresses : Progresses
      (fun r => r.Sound source ∧ r.tokens.remaining ≤ s.tokens.remaining) statement? := by
    intro r a r' hr hrun
    have hr' := ((keeps_statement? r hr.1 (List.nil_subset _)).1 _ _ hrun).1
    have htaken := remaining_add_count_le (fun _ => agree_statement?) hrun
    simp only [ifSome] at htaken
    exact ⟨⟨hr', by omega⟩, .inl (by omega)⟩
  obtain ⟨last, ⟨hlast, hle⟩, hnone⟩ :=
    hprogresses.exists_last ⟨hs, Nat.le_refl _⟩ hstatements
  have hleft := remaining_add_count_le (fun _ => agree_statement?) hnone
  simp only [ifSome] at hleft
  obtain ⟨hbranch, hstray, hend⟩ := strayBranch_eq_ok hstray
  rcases statement?_eq_none hlast hnone with hlt | hmiddle | hmiddle
  · exact .inl (by omega)
  · have := hbranch hmiddle
    exact .inl (by omega)
  · exact .inr (topLevel?_run_exhausted (hend hmiddle))

/-- A routine is read to its end. -/
theorem consumed_of_many_topLevel? {blocks : List Statement} {final : Reading}
    (h : many topLevel? (Reading.ofSource source) = .ok blocks final) : final.tokens.Consumed := by
  obtain ⟨last, hlast, hnone⟩ :=
    topLevel?_progresses.exists_last (Reading.sound_ofSource source) h
  obtain ⟨rfl, hexhausted⟩ := topLevel?_eq_none hnone
  exact hlast.tokens.consumed hexhausted

end Reader

open Reader

structure EndsCleanly (mode : CombineMode) (source : String) : Prop where
  guards (s : Reading) : EndsAt exprWith expr s
  statements (s : Reading) : EndsAt statementWith? statement? s
  bodies (s : Reading) : EndsAt (round statement?) (many statement?) s
  branches (subject : Option String) (s : Reading) :
    EndsAt (round (whenWith? statement? subject)) (many (whenWith? statement? subject)) s
  values (subject : String) (s : Reading) :
    EndsAt (round (listedValue? subject)) (many (listedValue? subject)) s
  sections (s : Reading) : EndsAt (round filterSection?) (many filterSection?) s
  patterns (s : Reading) : EndsAt (round closingText?) (many closingText?) s
  texts (s : Reading) : EndsAt (round writtenText?) (many writtenText?) s
  blocks : EndsAt (round topLevel?) (many topLevel?) (.ofSource source)
  /-- There is a table, after the last token, or a fault at a line of the source. -/
  outcome :
    (∃ table blocks final, DecisionTable.ofSource mode source = .ok table ∧
      many topLevel? (.ofSource source) = .ok blocks final ∧ final.tokens.Consumed) ∨
    ∃ error, DecisionTable.ofSource mode source = .error error ∧ error.IsFault source

/-- A compilation ends with a table or a fault, whatever the source. -/
theorem endsCleanly (mode : CombineMode) (source : String) : EndsCleanly mode source where
  guards := endsAt_of_agree expr_eq fun _ _ _ h => agree_exprWith h
  statements := endsAt_of_agree statement?_eq fun _ _ _ h => agree_statementWith? h
  bodies _ := (Progresses.of_agree fun _ => agree_statement?).endsAt trivial
  branches _ _ :=
    (Progresses.of_agree fun _ => agree_whenWith? _ agree_statement?).endsAt trivial
  values _ _ := (Progresses.of_agree fun _ => agree_listedValue?).endsAt trivial
  sections _ := (Progresses.of_agree fun _ => agree_filterSection?).endsAt trivial
  patterns _ := (Progresses.of_agree fun _ => agree_closingText?).endsAt trivial
  texts _ := (Progresses.of_agree fun _ => agree_writtenText?).endsAt trivial
  blocks := topLevel?_progresses.endsAt (Reading.sound_ofSource source)
  outcome := by
    cases hbody : routineBody (.ofSource source) with
    | ok body final =>
        left
        obtain ⟨blocks, last, hblocks, hlast⟩ := bind_eq_ok.1 hbody
        cases hlast
        have htable : ∃ table, DecisionTable.ofSource mode source = .ok table := by
          rw [DecisionTable.ofSource, Routine.parse, hbody]
          exact ⟨_, DecisionTable.ofRoutine_eq mode _⟩
        obtain ⟨table, htable⟩ := htable
        exact ⟨table, blocks, final, htable, hblocks, consumed_of_many_topLevel? hblocks⟩
    | error error last =>
        right
        refine ⟨error, ?_, ?_⟩
        · rw [DecisionTable.ofSource, Routine.parse, hbody]
          rfl
        · have hkeeps := keeps_routineBody _ (Reading.sound_ofSource source) (List.nil_subset _)
          exact hkeeps.2 _ _ hbody

end ClassSelection
