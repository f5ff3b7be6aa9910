import ClassSelection.Proofs.Reader.Diagnostics
import ClassSelection.Proofs.Reader.Dispatch
import ClassSelection.Proofs.Token.Lines
import Mathlib.Data.List.GetD

/-!
# Places of statements

Wherever a run comes to a statement, it has taken so many tokens of its source,
and holds the next one at most (`ComesTo.exists_position`).  So each SET that it
dispatches is the token at an index, and these indices increase.
-/

namespace ClassSelection

def Reading.taken (source : String) (s : Reading) : Nat :=
  (Token.lex source.toList).length - s.tokens.toList.length

variable {source : String} {s : Reading} {position : Position}

theorem Reading.tokenAt_taken (h : s.tokens = position.stream source) :
    tokenAt source (s.taken source) = s.tokens.next.1 := by
  have hnext : s.tokens.next.1 = tokenAt source position.count := by
    rw [h, Position.next_stream]
  rw [hnext, tokenAt, tokenAt, TokenStream.token_ofSource, TokenStream.token_ofSource,
    Reading.taken, h, Position.toList_stream, List.length_drop]
  by_cases hlt : position.count < (Token.lex source.toList).length
  · rw [Nat.sub_sub_self hlt.le]
  · rw [Nat.sub_eq_zero_of_le (Nat.not_lt.1 hlt), Nat.sub_zero,
      List.getD_eq_default _ _ (Nat.le_refl _), List.getD_eq_default _ _ (Nat.not_lt.1 hlt)]

theorem Reading.taken_eq (h : s.tokens = position.stream source)
    (hne : s.tokens.next.1 ≠ .endOfSource) : s.taken source = position.count := by
  have hlt : position.count < (Token.lex source.toList).length := by
    by_contra hge
    have htoList := Position.toList_stream source position
    rw [List.drop_eq_nil_of_le (Nat.not_lt.1 hge), ← h, TokenStream.toList_eq_nil_iff] at htoList
    exact hne htoList
  rw [taken, h, Position.toList_stream, List.length_drop, Nat.sub_sub_self hlt.le]

/-! ## What is left to read -/

theorem remaining_after_le {n m : Nat} (h : n ≤ m) :
    (TokenStream.after source m).remaining ≤ (TokenStream.after source n).remaining := by
  induction h with
  | refl => exact Nat.le_refl _
  | @step m _ ih =>
      have hnext := (TokenStream.after source m).remaining_next_add_weight_le
      rw [← TokenStream.after_succ] at hnext
      exact (Nat.le_of_add_right_le hnext).trans ih

/-- Where no more is left than behind some tokens, those tokens have been taken. -/
theorem Position.le_count {n : Nat} (hne : tokenAt source position.count ≠ .endOfSource)
    (h : (position.stream source).remaining ≤ (TokenStream.after source n).remaining) :
    n ≤ position.count := by
  by_contra hlt
  have hafter : (TokenStream.after source n).remaining ≤
      (TokenStream.after source (position.count + 1)).remaining :=
    remaining_after_le (Nat.not_le.1 hlt)
  have hnext := (position.stream source).remaining_next_add_weight_le
  rw [next_stream, Token.weight_of_ne hne] at hnext
  dsimp only at hnext
  omega

namespace Reader

variable {place later : Reading} {statement : Statement}

theorem reports_untilWith? {nested : Reader (Option Statement)}
    (hplace : ∀ mark position, ¬place.Stands source mark position) (h : Reports source nested) :
    Reports source (untilWith? place nested) := by
  intro mark position hmark s hs
  have hne : s ≠ place := by
    rintro rfl
    exact hplace mark position hs
  rw [untilWith?, if_neg hne]
  exact reports_statementWith? h mark position hmark s hs

/-- A run comes to its statements at positions of the source. -/
theorem ComesTo.exists_position (h : ComesTo source place) :
    ∃ mark position, place.Stands source mark position := by
  by_contra hnone
  have hplace (mark : Nat) (position : Position) : ¬place.Stands source mark position :=
    fun hstands => hnone ⟨mark, position, hstands⟩
  have hstatement : Reports source (statementUntil place) :=
    .of_levels endsAt_statementUntil (.pure none) fun _ => reports_untilWith? hplace
  have hroutine : Reports source (routineUntil place) :=
    (Reports.many (reports_topLevelWith? hstatement)).bind fun _ => .pure _
  -- no error of a reading is the one that stops the probe
  obtain ⟨last, mark, position, harises, -⟩ :=
    (hroutine 0 ⟨0, false⟩ (Nat.le_refl _) _ (Reading.stands_ofSource source)).2 _ _ h
  cases harises

/-- A SET that completes assigns the third token behind its keyword, and has been read to the end
of that token. -/
theorem setStatement_of_comesTo (hcomes : ComesTo source place)
    (hset : place.tokens.next.1 = .word "SET")
    (hrun : statement? place = .ok (some statement) s) :
    SetStatement source (place.taken source + 1) ∧
      statement = .assign (tokenAt source (place.taken source + 3)).text
        (lineAt source (place.taken source + 3)) ∧
      s.tokens = TokenStream.after source (place.taken source + 4) := by
  obtain ⟨mark, position, hstands⟩ := hcomes.exists_position
  rw [Reading.taken_eq hstands.tokens (by rw [hset]; exact Token.noConfusion)]
  rw [statement?_set hset] at hrun
  obtain ⟨_, _, hassignment, hrun⟩ := bind_eq_ok.1 hrun
  cases hrun
  have htokens : place.tokens.next.2 = Position.stream source ⟨position.count + 1, false⟩ := by
    rw [hstands.tokens, Position.next_stream]
    rfl
  obtain ⟨_, _, hs, -, rfl, hstatement⟩ :=
    (diagnoses_assignment { place with tokens := place.tokens.next.2 }
      ⟨htokens, hstands.noted⟩).1 _ _ hassignment
  exact ⟨hstatement.1, hstatement.2, hs.tokens⟩

/-- The four tokens of a SET come before the next SET. -/
theorem Precedes.taken_le (h : Precedes place later) (hcomes : ComesTo source place)
    (hset : place.tokens.next.1 = .word "SET") (hlater : ComesTo source later)
    (hset' : later.tokens.next.1 = .word "SET") :
    place.taken source + 4 ≤ later.taken source := by
  obtain ⟨statement, s, hrun, hle⟩ := h
  obtain ⟨-, -, htokens⟩ := setStatement_of_comesTo hcomes hset hrun
  obtain ⟨mark, position, hstands⟩ := hlater.exists_position
  have hne : later.tokens.next.1 ≠ .endOfSource := by
    rw [hset']
    exact Token.noConfusion
  rw [htokens, hstands.tokens] at hle
  rw [Reading.taken_eq hstands.tokens hne]
  refine Position.le_count ?_ hle
  rwa [hstands.tokens, Position.next_stream] at hne

/-- The run on the source comes to a statement at the token with the index, and that is a SET. -/
def DispatchesSet (source : String) (n : Nat) : Prop :=
  tokenAt source n = .word "SET" ∧ ∃ place, ComesTo source place ∧ place.taken source = n

theorem dispatchesSet_iff {n : Nat} : DispatchesSet source n ↔
    ∃ place, ComesTo source place ∧ place.tokens.next.1 = .word "SET" ∧
      place.taken source = n := by
  constructor
  · rintro ⟨hset, place, hcomes, rfl⟩
    obtain ⟨mark, position, hstands⟩ := hcomes.exists_position
    rw [Reading.tokenAt_taken hstands.tokens] at hset
    exact ⟨place, hcomes, hset, rfl⟩
  · rintro ⟨place, hcomes, hset, rfl⟩
    obtain ⟨mark, position, hstands⟩ := hcomes.exists_position
    exact ⟨(Reading.tokenAt_taken hstands.tokens).trans hset, place, hcomes, rfl⟩

end Reader

end ClassSelection
