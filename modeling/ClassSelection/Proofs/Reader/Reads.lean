import ClassSelection.Proofs.Reader.Accepts
import Mathlib.Logic.Function.Iterate

/-!
# What a reader does on known tokens

`Reads` says all that a reader does where it comes to certain tokens: its value,
the tokens that it leaves, and the variables that it registers.  Nothing else
changes, and the end of the source is not met.
-/

namespace ClassSelection

def Reading.readTo (s : Reading) (tokens : TokenStream) (names : List String) : Reading :=
  { s with
    tokens
    registry := names.foldl (fun registry name => (registry.add name).2) s.registry }

@[simp] theorem Reading.readTo_readTo (s : Reading) (tokens tokens' : TokenStream)
    (names names' : List String) :
    (s.readTo tokens names).readTo tokens' names' = s.readTo tokens' (names ++ names') := by
  simp only [Reading.readTo, List.foldl_append]

theorem TokenStream.exhausted_next_of_ne {stream : TokenStream}
    (h : stream.next.1 ≠ .endOfSource) : stream.next.2.exhausted = stream.exhausted := by
  obtain ⟨line, rest, pending, exhausted⟩ := stream
  cases pending with
  | some token => rfl
  | none =>
      change (Token.read line rest).1 ≠ .endOfSource at h
      simp [next, h]

def Reading.skip (s : Reading) (n : Nat) : Reading :=
  { s with tokens := (fun stream => stream.next.2)^[n] s.tokens }

theorem Reading.skip_succ (s : Reading) (n : Nat) :
    s.skip (n + 1) = { s.skip n with tokens := (s.skip n).tokens.next.2 } := by
  rw [Reading.skip, Function.iterate_succ_apply']
  rfl

theorem Reading.pending_skip {s : Reading} {n : Nat} : (s.skip (n + 1)).tokens.pending = none := by
  rw [skip_succ]
  exact TokenStream.pending_next _

theorem Reading.toList_skip {s : Reading} {n : Nat} (h : n ≤ s.tokens.toList.length) :
    (s.skip n).tokens.toList = s.tokens.toList.drop n ∧
      (s.skip n).tokens.exhausted = s.tokens.exhausted := by
  induction n with
  | zero => exact ⟨rfl, rfl⟩
  | succ n ih =>
      obtain ⟨htoList, hexhausted⟩ := ih (by omega)
      rw [List.drop_eq_getElem_cons (by omega)] at htoList
      obtain ⟨hnext, hne, hrest⟩ := TokenStream.toList_eq_cons_iff.1 htoList
      rw [skip_succ]
      exact ⟨hrest, (TokenStream.exhausted_next_of_ne (hnext ▸ hne)).trans hexhausted⟩

namespace Reader

variable {α β : Type} {before middle after rest : List Token} {names names' : List String}

def Reads (x : Reader α) (before after : List Token) (a : α) (names : List String) : Prop :=
  ∀ s, s.tokens.toList = before → ∃ tokens,
    x s = .ok a (s.readTo tokens names) ∧ tokens.toList = after ∧
      tokens.exhausted = s.tokens.exhausted

/-! ## Runs from a token that is known -/

section

variable {s s' : Reading} {token : Token}

theorem next_run_of_toList (h : s.tokens.toList = token :: rest) :
    next s = .ok token { s with tokens := s.tokens.next.2 } := by
  rw [next_run, (TokenStream.toList_eq_cons_iff.1 h).1]

theorem expect_run {symbol : Char} {expected : String} (h : next s = .ok (.punct symbol) s') :
    expect symbol expected s = .ok () s' := by
  rw [expect, bind_run, h]
  dsimp only
  rw [if_pos (by simp)]
  rfl

theorem accept_run (h : next s = .ok token s') : accept (· == token) s = .ok true s' := by
  rw [accept, bind_run, h]
  dsimp only
  rw [if_pos (by simp)]
  rfl

theorem exists_accept_run_not {wanted : Token} (h : next s = .ok token s')
    (hpending : s'.tokens.pending = none) (hne : token ≠ wanted) :
    ∃ waiting, accept (· == wanted) s = .ok false waiting ∧ next waiting = .ok token s' := by
  obtain ⟨⟨line, rest, pending, exhausted⟩, registry, anomalies, filterLists, kind, assigned⟩ := s'
  subst hpending
  refine ⟨⟨⟨line, rest, some token, exhausted⟩, registry, anomalies, filterLists, kind, assigned⟩,
    ?_, rfl⟩
  rw [accept, bind_run, h]
  dsimp only
  rw [if_neg (by simp [hne])]
  rfl

theorem next_skip {n : Nat} (h : (s.skip n).tokens.toList = token :: rest) :
    next (s.skip n) = .ok token (s.skip (n + 1)) ∧ (s.skip (n + 1)).tokens.toList = rest := by
  obtain ⟨rfl, -, rfl⟩ := TokenStream.toList_eq_cons_iff.1 h
  rw [Reading.skip_succ]
  exact ⟨next_run _, rfl⟩

end

/-! ## Sequences -/

namespace Reads

theorem bind {x : Reader α} {f : α → Reader β} {a : α} {b : β}
    (hx : Reads x before middle a names) (hf : Reads (f a) middle after b names') :
    Reads (x >>= f) before after b (names ++ names') := by
  intro s hs
  obtain ⟨tokens, hrun, hmiddle, hexhausted⟩ := hx s hs
  obtain ⟨tokens', hrun', hafter, hexhausted'⟩ := hf (s.readTo tokens names) hmiddle
  refine ⟨tokens', ?_, hafter, hexhausted'.trans hexhausted⟩
  rw [bind_run, hrun]
  dsimp only
  rw [hrun', Reading.readTo_readTo]

theorem andThen {x : Reader α} {f : α → Reader β} {a : α} {b : β} (hx : Reads x before middle a [])
    (hf : Reads (f a) middle after b names) : Reads (x >>= f) before after b names :=
  hx.bind hf

theorem exists_run_bind {x : Reader α} {a : α} (h : Reads x before after a names) {s : Reading}
    (hs : s.tokens.toList = before) : ∃ tokens,
      (∀ f : α → Reader β, (x >>= f) s = f a (s.readTo tokens names)) ∧ tokens.toList = after ∧
        tokens.exhausted = s.tokens.exhausted := by
  obtain ⟨tokens, hrun, hafter, hexhausted⟩ := h s hs
  refine ⟨tokens, fun f => ?_, hafter, hexhausted⟩
  rw [bind_run, hrun]

theorem pure (a : α) : Reads (pure a) before before a [] :=
  fun s hs => ⟨s.tokens, rfl, hs, rfl⟩

theorem map {x : Reader α} {f : α → β} {a : α} (hx : Reads x before after a names) :
    Reads (x >>= fun a => Pure.pure (f a)) before after (f a) names := by
  rw [← List.append_nil names]
  exact hx.bind (pure (f a))

theorem next {token : Token} : Reads next (token :: rest) rest token [] := by
  intro s hs
  obtain ⟨rfl, hne, hrest⟩ := TokenStream.toList_eq_cons_iff.1 hs
  exact ⟨s.tokens.next.2, rfl, hrest, TokenStream.exhausted_next_of_ne hne⟩

theorem register {name : String} : Reads (register name) before before () [name] :=
  fun s hs => ⟨s.tokens, rfl, hs, rfl⟩

theorem peek {token : Token} {f : Token → Reader α} {g : Unit → Reader α} {a : α}
    (hf : f token = putBack token >>= g) (hg : Reads (g ()) (token :: rest) after a names) :
    Reads (Reader.next >>= f) (token :: rest) after a names := by
  intro s hs
  obtain ⟨rfl, hne, hrest⟩ := TokenStream.toList_eq_cons_iff.1 hs
  obtain ⟨tokens, htokens⟩ := s.tokens.exists_pushBack?_next s.tokens.next.1
  have hback : tokens.toList = s.tokens.next.1 :: rest := by
    rw [TokenStream.toList_pushBack?_next htokens, hs]
  obtain ⟨tokens', hrun, hafter, hexhausted⟩ := hg { s with tokens } hback
  refine ⟨tokens', ?_, hafter, ?_⟩
  · rw [bind_run, next_run]
    dsimp only
    rw [hf, bind_run, putBack]
    simp only [htokens]
    exact hrun
  · rw [hexhausted]
    exact (TokenStream.exhausted_pushBack? htokens).trans (TokenStream.exhausted_next_of_ne hne)

theorem accept {wanted : Token → Bool} {token : Token} (h : wanted token = true) :
    Reads (accept wanted) (token :: rest) rest true [] := by
  refine next.andThen ?_
  rw [if_pos h]
  exact pure true

theorem accept_not {wanted : Token → Bool} {token : Token} (h : wanted token = false) :
    Reads (Reader.accept wanted) (token :: rest) (token :: rest) false [] := by
  refine peek (g := fun _ => Pure.pure false) ?_ (pure false)
  rw [if_neg (by simp [h])]

theorem expect {symbol : Char} {expected : String} :
    Reads (expect symbol expected) (.punct symbol :: rest) rest () [] := by
  intro s hs
  obtain ⟨hnext, hne, hrest⟩ := TokenStream.toList_eq_cons_iff.1 hs
  exact ⟨s.tokens.next.2, expect_run (next_run_of_toList hs), hrest,
    TokenStream.exhausted_next_of_ne (hnext ▸ hne)⟩

theorem many_nil {item : Reader (Option α)} (h : Reads item before after none names) :
    Reads (many item) before after [] names := by
  intro s hs
  obtain ⟨tokens, hrun, hafter⟩ := h s hs
  exact ⟨tokens, many_run_none hrun, hafter⟩

theorem many_cons {item : Reader (Option α)} {a : α} {others : List α}
    (hitem : ∀ bound, Agree bound ifSome item item) (h : Reads item before middle (some a) names)
    (hothers : Reads (many item) middle after others names') :
    Reads (many item) before after (a :: others) (names ++ names') := by
  intro s hs
  obtain ⟨tokens, hrun, hmiddle, hexhausted⟩ := h s hs
  obtain ⟨tokens', hrun', hafter, hexhausted'⟩ := hothers (s.readTo tokens names) hmiddle
  refine ⟨tokens', ?_, hafter, hexhausted'.trans hexhausted⟩
  rw [many_run_some (hitem _) hrun, hrun', Reading.readTo_readTo]

end Reads

end Reader

end ClassSelection
