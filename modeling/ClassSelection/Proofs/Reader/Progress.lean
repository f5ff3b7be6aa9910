import ClassSelection.Proofs.Token.Stream
import ClassSelection.Reader.Statement

/-!
# Readers make progress

`many` and `nest` compare what is left to read before they go on.  Here it is
proved that the comparison never fails: `Agree` says of two readers that they
do the same wherever little enough is left, and that they leave less by what
they have taken.  It is kept by sequencing, by `many` and by `nest`, and so
`expr`, `statement?` and their loops satisfy the plain recursive equations.
-/

namespace ClassSelection.Reader

variable {α β : Type}

/-- The two readers do the same wherever no more than `bound` is left, and a value takes at least
`count` from what is left.  The count of a token that is put back is negative. -/
def Agree (bound : Int) (count : α → Int) (x y : Reader α) : Prop :=
  ∀ s, (s.tokens.remaining : Int) ≤ bound →
    x s = y s ∧ ∀ a s', x s = .ok a s' → (s'.tokens.remaining : Int) + count a ≤ s.tokens.remaining

def ifSome : Option α → Int
  | some _ => 1
  | none => 0

/-! ## Single steps -/

theorem bind_run (x : Reader α) (f : α → Reader β) (s : Reading) :
    (x >>= f) s = match x s with
      | .ok a s' => f a s'
      | .error e s' => .error e s' := by
  change EStateM.bind x f s = _
  unfold EStateM.bind
  cases x s <;> rfl

theorem next_run (s : Reading) :
    next s = .ok s.tokens.next.1 { s with tokens := s.tokens.next.2 } := rfl

theorem bind_eq_ok {x : Reader α} {f : α → Reader β} {s s' : Reading} {b : β} :
    (x >>= f) s = .ok b s' ↔ ∃ a middle, x s = .ok a middle ∧ f a middle = .ok b s' := by
  rw [bind_run]
  cases x s <;> simp

namespace Agree

variable {bound : Int} {count : α → Int} {x y : Reader α}

theorem mono {bound' : Int} {count' : α → Int} (h : Agree bound count x y)
    (hbound : bound' ≤ bound) (hcount : ∀ a, count' a ≤ count a) : Agree bound' count' x y := by
  intro s hs
  obtain ⟨heq, hleft⟩ := h s (Int.le_trans hs hbound)
  refine ⟨heq, fun a s' hrun => ?_⟩
  have := hleft a s' hrun
  have := hcount a
  omega

theorem bind {count' : β → Int} {f g : α → Reader β} (h : Agree bound count x y)
    (hf : ∀ a, Agree (bound - count a) (fun b => count' b - count a) (f a) (g a)) :
    Agree bound count' (x >>= f) (y >>= g) := by
  intro s hs
  obtain ⟨heq, hleft⟩ := h s hs
  rw [bind_run, bind_run, ← heq]
  cases hx : x s with
  | error e s' => exact ⟨rfl, fun b s' hrun => by cases hrun⟩
  | ok a s' =>
      have hs' := hleft a s' hx
      obtain ⟨heq', hleft'⟩ := hf a s' (by omega)
      refine ⟨heq', fun b s'' hrun => ?_⟩
      have := hleft' b s'' hrun
      dsimp only at this
      omega

theorem pure {a : α} (h : count a ≤ 0) : Agree bound count (pure a) (pure a) := by
  intro s _
  refine ⟨rfl, fun b s' hrun => ?_⟩
  cases hrun
  omega

theorem throw {e : Error} : Agree bound count (throw e) (throw e) := by
  intro s _
  exact ⟨rfl, fun b s' hrun => by cases hrun⟩

theorem next : Agree bound (fun token => (token.weight : Int)) next next := by
  intro s _
  refine ⟨rfl, fun token s' hrun => ?_⟩
  rw [next_run] at hrun
  cases hrun
  have := s.tokens.remaining_next_add_weight_le
  dsimp only
  omega

theorem putBack {token : Token} : Agree bound (fun _ => -(token.weight : Int)) (putBack token)
    (putBack token) := by
  intro s _
  refine ⟨rfl, fun _ s' hrun => ?_⟩
  unfold Reader.putBack at hrun
  split at hrun
  · rename_i tokens htokens
    cases hrun
    have := TokenStream.remaining_pushBack? htokens
    dsimp only
    omega
  · cases hrun

theorem get : Agree bound (fun _ => 0) (MonadState.get : Reader Reading) MonadState.get := by
  intro s _
  refine ⟨rfl, fun a s' hrun => ?_⟩
  cases hrun
  simp

theorem modify {f : Reading → Reading} (h : ∀ s, (f s).tokens = s.tokens) :
    Agree bound (fun _ => 0) (modify f : Reader Unit) (modify f) := by
  intro s _
  refine ⟨rfl, fun a s' hrun => ?_⟩
  cases hrun
  simp [h]

end Agree

/-! ## Loops and recursion -/

theorem many_run_none {item : Reader (Option α)} {s s' : Reading} (h : item s = .ok none s') :
    many item s = .ok [] s' := by
  rw [many, h]

theorem many_run_error {item : Reader (Option α)} {s s' : Reading} {e : Error}
    (h : item s = .error e s') : many item s = .error e s' := by
  rw [many, h]

theorem many_run_some {item : Reader (Option α)} {s s' : Reading} {a : α}
    (hitem : Agree s.tokens.remaining ifSome item item) (h : item s = .ok (some a) s') :
    many item s = match many item s' with
      | .ok others final => .ok (a :: others) final
      | .error e final => .error e final := by
  have hlt : s'.tokens.remaining < s.tokens.remaining := by
    have := (hitem s (Int.le_refl _)).2 _ _ h
    simp only [ifSome] at this
    omega
  rw [many, h]
  simp only [if_pos hlt]
  cases many item s' <;> rfl

def again (item : Reader (Option α)) (left : Nat) : Option α → Reader (List α)
  | none => pure []
  | some first => fun after =>
    if after.tokens.remaining < left then (do return first :: (← many item)) after
    else (pure [first] : Reader (List α)) after

theorem many_run_eq (item : Reader (Option α)) (s : Reading) :
    many item s = (item >>= again item s.tokens.remaining) s := by
  rw [many, bind_run]
  cases item s with
  | error e s' => rfl
  | ok found s' =>
      cases found with
      | none => rfl
      | some first =>
          dsimp only [again]
          split
          · rw [bind_run]
            cases many item s' <;> rfl
          · rfl

theorem Agree.many {bound : Int} {item item' : Reader (Option α)}
    (h : Agree bound ifSome item item') :
    Agree bound (fun _ => 0) (many item) (many item') := by
  intro s hs
  induction hleft : s.tokens.remaining using Nat.strongRecOn generalizing s with
  | _ n ih =>
      subst hleft
      obtain ⟨heq, htaken⟩ := h s hs
      rw [Reader.many, Reader.many, ← heq]
      cases hrun : item s with
      | error e s' => exact ⟨rfl, fun _ _ h => by cases h⟩
      | ok a s' =>
          cases a with
          | none =>
              refine ⟨rfl, fun _ _ h => ?_⟩
              cases h
              simpa [ifSome] using htaken _ _ hrun
          | some a =>
              have hlt := htaken _ _ hrun
              simp only [ifSome] at hlt
              obtain ⟨heq', htaken'⟩ := ih s'.tokens.remaining (by omega) s' (by omega) rfl
              have hlt' : s'.tokens.remaining < s.tokens.remaining := by omega
              simp only [if_pos hlt', ← heq']
              refine ⟨trivial, ?_⟩
              cases hmany : Reader.many item s' with
              | error e final => exact fun _ _ h => by cases h
              | ok others final =>
                  intro _ _ h
                  cases h
                  have := htaken' _ _ hmany
                  dsimp only at this ⊢
                  omega

/-- A recursion whose calls for nested parts come after a token has been taken satisfies its plain
equation, and takes what one level of it takes. -/
theorem nest_spec {count : α → Int} {reader : Reader α → Reader α} {bottom : Reader α}
    (h : ∀ bound f g, Agree (bound - 1) count f g → Agree bound count (reader f) (reader g)) :
    nest reader bottom = reader (nest reader bottom) ∧
      ∀ bound, Agree bound count (nest reader bottom) (nest reader bottom) := by
  have hnest : ∀ n s, s.tokens.remaining = n →
      nest reader bottom s = reader (nest reader bottom) s ∧
        ∀ a s', nest reader bottom s = .ok a s' →
          (s'.tokens.remaining : Int) + count a ≤ s.tokens.remaining := by
    intro n
    induction n using Nat.strongRecOn with
    | _ n ih =>
        intro s hs
        have hinner : Agree ((s.tokens.remaining : Int) - 1) count
            (fun inner =>
              if inner.tokens.remaining < s.tokens.remaining then nest reader bottom inner
              else bottom inner)
            (nest reader bottom) := by
          intro inner hle
          have hlt : inner.tokens.remaining < s.tokens.remaining := by omega
          simp only [if_pos hlt, true_and]
          exact fun a s' hrun => (ih inner.tokens.remaining (by omega) inner rfl).2 a s' hrun
        obtain ⟨heq, htaken⟩ := h s.tokens.remaining _ _ hinner s (Int.le_refl _)
        rw [nest]
        exact ⟨heq, htaken⟩
  refine ⟨funext fun s => (hnest _ s rfl).1, fun bound s _ => ⟨rfl, (hnest _ s rfl).2⟩⟩

end ClassSelection.Reader
