import ClassSelection.Proofs.Reader.Until
import ClassSelection.Proofs.Source.Heads
import Mathlib.Logic.Relation

/-!
# Two ways to write a SELECT

A SELECT with a subject can be written without it, with each list of values as
comparisons of the subject.  `RespelledBranches` follows the run over the
branches, and there is such a run for every SELECT whose branches ask for lists
(`exists_respelled`).  The two are kept in step (`RespelledBranches.endAlike`),
branch by branch: the heads do the same, and the body between them is the same
text, up to a fork behind the next WHEN.
-/

namespace ClassSelection.Source

open Reader

variable {rest : List Token}

/-- What may come after an error: what has been there, or anything in its place if none of it had
been scanned. -/
def Unread (last : Reading) (rest other : List Token) : Prop :=
  other = rest ∨ rest ≠ [] ∧ rest.length ≤ (Token.lex last.tokens.rest).length

/-- The branches of a SELECT with a subject, from a reading at which one may begin, and the tokens
of the same branches without it.  Each WHEN that is read as a branch asks for a list of values. -/
inductive RespelledBranches (subject : Variable) : Reading → List Token → Prop
  | done {s : Reading} (h : s.tokens.next.1 ≠ .word "WHEN") :
      RespelledBranches subject s s.tokens.toList
  | branch {s s' : Reading} {question : Question (some subject)} {body rest : List Token}
      {branch : Expr × Statement}
      (hlist : s.tokens.toList = whenTokens question.tokens ++ (body ++ s'.tokens.toList))
      (hrun : whenWith? statement? (some subject.text) s = .ok (some branch) s')
      (hrest : RespelledBranches subject s' rest) :
      RespelledBranches subject s (whenTokens question.comparisons ++ (body ++ rest))
  | broken {s last : Reading} {question : Question (some subject)} {body rest other : List Token}
      {e : Error}
      (hlist : s.tokens.toList = whenTokens question.tokens ++ (body ++ rest))
      (hrun : whenWith? statement? (some subject.text) s = .error e last)
      (hrest : Unread last rest other) :
      RespelledBranches subject s (whenTokens question.comparisons ++ (body ++ other))

/-- A SELECT in a source has a subject and a WHEN, and `tokens` are those of the source with that
SELECT written without its subject. -/
inductive Respelled (source : String) (subject : Variable) : List Token → Prop
  /-- The run comes to the SELECT. -/
  | read {place : Reading} {before tail rest : List Token} (hplace : ComesTo source place)
      (hselect : place.tokens.toList =
        .word "SELECT" :: (subjectTokens (some subject) ++ .word "WHEN" :: tail))
      (hbranches : RespelledBranches subject (place.skip (subject.tokens.length + 3)) rest)
      (hsource : (TokenStream.ofSource source).toList = before ++ place.tokens.toList) :
      Respelled source subject (before ++ .word "SELECT" :: rest)
  /-- The run fails before it comes to the SELECT. -/
  | unread {last : Reading} {before tail rest : List Token} {e : Error}
      (hrun : routineBody (.ofSource source) = .error e last)
      (hsource : (TokenStream.ofSource source).toList =
        before ++ .word "SELECT" :: (subjectTokens (some subject) ++ .word "WHEN" :: tail))
      (hlast : Unread last (subjectTokens (some subject) ++ .word "WHEN" :: tail) rest) :
      Respelled source subject (before ++ .word "SELECT" :: rest)

/-! ## Every SELECT on a subject -/

section

variable {source : String} {subject : Variable} {s s' place : Reading}

def NextBranch (subject : Variable) (s s' : Reading) : Prop :=
  ∃ branch, whenWith? statement? (some subject.text) s = .ok (some branch) s'

def AsksForLists (subject : Variable) (s : Reading) : Prop :=
  ∀ s', Relation.ReflTransGen (NextBranch subject) s s' → s'.tokens.next.1 = .word "WHEN" →
    ∃ (question : Question (some subject)) (others : List Token),
      s'.tokens.toList = whenTokens question.tokens ++ others

theorem Variable.isVariable_text (v : Variable) : isVariable v.text = true := by
  obtain ⟨name, marked, qualifier⟩ := v
  cases qualifier with
  | none => exact marked
  | some qualifier => exact isVariable_append (isVariable_append (isVariable_append marked _) _) _

theorem exists_branch {question : Question (some subject)} {found : Option (Expr × Statement)}
    (hs : s.Sound source) (hlist : s.tokens.toList = whenTokens question.tokens ++ rest)
    (hrun : whenWith? statement? (some subject.text) s = .ok found s') :
    s'.Sound source ∧ ∃ branch body, found = some branch ∧ rest = body ++ s'.tokens.toList := by
  have hsubject : ∀ name ∈ some subject.text, isVariable name = true := by
    rintro _ ⟨⟩
    exact subject.isVariable_text
  have hwhen {nested : Reader (Option Statement)} (h : KeepsStatements source nested) :=
    keeps_whenWith? h hsubject s hs (List.nil_subset _)
  refine ⟨((hwhen keeps_statement?).1 _ _ hrun).1, ?_⟩
  obtain ⟨names, hreads⟩ := question.exists_reads
  obtain ⟨tokens, hhead, htoList, hpending, -⟩ :=
    exists_whenWith?_run (some subject.text) (hreads _).1 hlist
  -- a branch in which no statement is found ends behind its head
  have hempty : whenWith? (pure none) (some subject.text) s =
      .ok (some (question.expr, .sequence [])) (s.readTo tokens names) := by
    rw [hhead, blockWith]
    exact bind_eq_ok.2 ⟨_, _, bind_eq_ok.2 ⟨_, _, many_run_none rfl, rfl⟩, rfl⟩
  have hstart := ((hwhen (keeps_pure fun _ _ => by simp)).1 _ _ hempty).1
  obtain ⟨left, hleft, hlefttoList⟩ := hstart.tokens.exists_source hpending
  rw [hhead] at hrun
  obtain ⟨statement, _, hblock, hvalue⟩ := bind_eq_ok.1 hrun
  cases hvalue
  have hafter := ((keeps_blockWith keeps_statement? _ ⟨hleft, hstart.nodup⟩
    (List.nil_subset _)).1 _ _ hblock).1
  obtain ⟨body, hbody⟩ := hafter.tokens.suffix
  exact ⟨_, body, rfl, (hbody.trans (hlefttoList.trans htoList)).symm⟩

theorem exists_respelledBranches (hs : s.Sound source) (hlists : AsksForLists subject s) :
    ∃ rest, RespelledBranches subject s rest := by
  induction hleft : s.tokens.remaining using Nat.strongRecOn generalizing s with
  | _ n ih =>
      subst hleft
      by_cases hwhen : s.tokens.next.1 = .word "WHEN"
      · obtain ⟨question, others, hlist⟩ := hlists s .refl hwhen
        cases hrun : whenWith? statement? (some subject.text) s with
        | error e last =>
            rw [← List.nil_append others] at hlist
            exact ⟨_, .broken hlist hrun (.inl rfl)⟩
        | ok found after =>
            obtain ⟨hafter, branch, body, rfl, rfl⟩ := exists_branch hs hlist hrun
            have hlt : after.tokens.remaining < s.tokens.remaining := by
              have := remaining_add_count_le (fun _ => agree_whenWith? _ agree_statement?) hrun
              simp only [ifSome] at this
              omega
            obtain ⟨rest, hrest⟩ := ih _ hlt hafter
              (fun s' hreach => hlists s' (.head ⟨branch, hrun⟩ hreach)) rfl
            exact ⟨_, .branch hlist hrun hrest⟩
      · exact ⟨_, .done hwhen⟩

/-- A SELECT to which the run comes can be written without its subject, if each WHEN that is read
as a branch of it asks for a list of values. -/
theorem exists_respelled {tail : List Token} (hplace : ComesTo source place)
    (hselect : place.tokens.toList =
      .word "SELECT" :: (subjectTokens (some subject) ++ .word "WHEN" :: tail))
    (hlists : AsksForLists subject (place.skip (subject.tokens.length + 3))) :
    ∃ before rest, (TokenStream.ofSource source).toList = before ++ place.tokens.toList ∧
      Respelled source subject (before ++ .word "SELECT" :: rest) := by
  have hskip (n : Nat) : (place.skip n).Sound source := by
    induction n with
    | zero => exact hplace.sound
    | succ n ih =>
        rw [Reading.skip_succ]
        exact ⟨ih.tokens.next.readFrom, ih.nodup⟩
  obtain ⟨rest, hbranches⟩ := exists_respelledBranches (hskip _) hlists
  obtain ⟨before, hbefore⟩ := hplace.sound.tokens.suffix
  exact ⟨before, rest, hbefore.symm, .read hplace hselect hbranches hbefore.symm⟩

end

/-! ## Readings that part -/

abbrev SameEnd (s t : TokenStream) : Prop :=
  s.exhausted = t.exhausted

/-- The readings have the same tokens before them up to a place where the one goes on with `rest`
and the other with `other`. -/
structure Parting (s t : Reading) (rest other : List Token) : Prop where
  related : s.Related SameEnd t
  pending : s.tokens.pending = none
  pending' : t.tokens.pending = none
  toList : ∃ common, s.tokens.toList = common ++ rest ∧ t.tokens.toList = common ++ other

namespace Parting

variable {s t : Reading} {rest other : List Token}

theorem ofSource {source source' : String} {common : List Token}
    (hcommon : (TokenStream.ofSource source).toList = common ++ rest)
    (hother : (TokenStream.ofSource source').toList = common ++ other) :
    Parting (.ofSource source) (.ofSource source') rest other :=
  ⟨⟨rfl, rfl, rfl, rfl, rfl, rfl⟩, rfl, rfl, common, hcommon, hother⟩

theorem tail {token : Token} (h : Parting s t (token :: rest) (token :: other)) :
    Parting s t rest other := by
  obtain ⟨common, hcommon, hother⟩ := h.toList
  exact { h with toList := ⟨common ++ [token], by simp [hcommon], by simp [hother]⟩ }

theorem alike (h : Parting s t rest rest) : s.Alike t := by
  obtain ⟨common, hcommon, hother⟩ := h.toList
  exact h.related.mono fun hend =>
    TokenStream.alike_of_toList h.pending h.pending' hend (hcommon.trans hother.symm)

theorem forked (h : Parting s t rest other) (hne : rest ≠ []) : s.Forked ⟨rest, other, hne⟩ t := by
  obtain ⟨common, hcommon, hother⟩ := h.toList
  exact h.related.mono fun hend =>
    TokenStream.forked_of_toList h.pending h.pending' hend hcommon hother

/-- An error comes up whatever follows where nothing has been scanned. -/
theorem endAlike {α : Type} {same : α → α → Prop} {x y : Reader α} {e : Error} {last : Reading}
    (h : Parting s t rest other) (htracks : ∀ fork, TracksAt fork same s t (x s) (x s) (y t))
    (hrest : Unread last rest other) (hrun : x s = .error e last) : EndAlike same (x s) (y t) := by
  obtain rfl | ⟨hne, hle⟩ := hrest
  · exact (htracks default).endAlike h.alike
  · have hends := (htracks _).forked (h.forked hne)
    rw [hrun] at hends ⊢
    exact hends.of_error (Nat.not_lt.2 hle)

end Parting

/-! ## Branches -/

variable {subject : Variable} {s t : Reading}

theorem related_readTo {R R' : TokenStream → TokenStream → Prop} {tokens tokens' : TokenStream}
    {names : List String} (h : s.Related R t) (htokens : R' tokens tokens') :
    (s.readTo tokens names).Related R' (t.readTo tokens' names) where
  tokens := htokens
  registry := by simp only [Reading.readTo, h.registry]
  anomalies := h.anomalies
  filterLists := h.filterLists
  kind := h.kind
  assigned := h.assigned

theorem exists_whenWith?_runs {question : Question (some subject)} {body other : List Token}
    (hst : s.Related SameEnd t)
    (hs : s.tokens.toList = whenTokens question.tokens ++ (body ++ rest))
    (ht : t.tokens.toList = whenTokens question.comparisons ++ (body ++ other)) :
    ∃ s' t', whenWith? statement? (some subject.text) s =
        (do return some (question.expr, ← blockWith statement?)) s' ∧
      whenWith? statement? none t = (do return some (question.expr, ← blockWith statement?)) t' ∧
      Parting s' t' rest other := by
  obtain ⟨names, hreads⟩ := question.exists_reads
  obtain ⟨before, hrun, hbefore, hpending, hexhausted⟩ :=
    exists_whenWith?_run (some subject.text) (hreads _).1 hs
  obtain ⟨before', hrun', hbefore', hpending', hexhausted'⟩ :=
    exists_whenWith?_run none (hreads _).2 ht
  have hend : SameEnd before before' := hexhausted.trans (hst.tokens.trans hexhausted'.symm)
  exact ⟨_, _, hrun _, hrun' _, related_readTo hst hend, hpending, hpending', body, hbefore,
    hbefore'⟩

/-- The second reading is where the first one is, with the branches written by `rest` before it. -/
structure Resumes (s : Reading) (rest : List Token) (t : Reading) : Prop where
  related : s.Related SameEnd t
  toList : t.tokens.toList = rest
  alike (h : s.tokens.next.1 ≠ .word "WHEN") : s.Alike t

namespace RespelledBranches

theorem exists_cons (h : RespelledBranches subject s rest)
    (hwhen : s.tokens.next.1 = .word "WHEN") :
    ∃ tail other, s.tokens.toList = .word "WHEN" :: tail ∧ tail ≠ [] ∧
      rest = .word "WHEN" :: other := by
  cases h with
  | done h => exact absurd hwhen h
  | branch hlist => exact ⟨_, _, hlist, by simp, rfl⟩
  | broken hlist => exact ⟨_, _, hlist, by simp, rfl⟩

theorem eq_toList (h : RespelledBranches subject s rest) (hne : s.tokens.next.1 ≠ .word "WHEN") :
    rest = s.tokens.toList := by
  cases h with
  | done => rfl
  | branch hlist => exact absurd (TokenStream.toList_eq_cons_iff.1 hlist).1 hne
  | broken hlist => exact absurd (TokenStream.toList_eq_cons_iff.1 hlist).1 hne

end RespelledBranches

/-- A body is read alike, whichever way the branches after it are written. -/
theorem exists_resumes {body : Statement} {after : Reading}
    (h : Parting s t after.tokens.toList rest) (hrest : RespelledBranches subject after rest)
    (hrun : blockWith statement? s = .ok body after) :
    ∃ body' after', blockWith statement? t = .ok body' after' ∧ body.Alike body' ∧
      Resumes after rest after' := by
  by_cases hwhen : after.tokens.next.1 = .word "WHEN"
  · obtain ⟨tail, other, htail, hne, rfl⟩ := hrest.exists_cons hwhen
    rw [htail] at h
    -- the body has looked at the WHEN, and the texts part behind it
    have hends := (tracks_blockWith inStep_statement? s t).forked (h.tail.forked hne)
    rw [hrun] at hends
    obtain ⟨body', after', hrun', hbody, hafter⟩ :=
      hends.of_ok (TokenStream.not_beyond (by simp [htail]))
    exact ⟨body', after', hrun', hbody, hafter.mono (·.exhausted),
      hafter.tokens.toList_cons htail, fun h => absurd hwhen h⟩
  · obtain rfl := hrest.eq_toList hwhen
    have hends := (tracks_blockWith inStep_statement?).endAlike h.alike
    rw [hrun] at hends
    obtain ⟨body', after', hrun', hbody, hafter⟩ := hends.of_ok
    exact ⟨body', after', hrun', hbody, hafter.mono (·.exhausted), hafter.tokens.toList.symm,
      fun _ => hafter⟩

theorem withBranch_alike {branch branch' : Expr × Statement} {others others' : Statement}
    (hbranch : BranchAlike branch branch') (hothers : others.Alike others') :
    (withBranch branch others).Alike (withBranch branch' others') := by
  obtain ⟨hguard, hbody⟩ := hbranch
  simp only [Statement.Alike] at hothers hbody ⊢
  cases others <;> cases others' <;>
    simp_all [withBranch, Statement.withoutLines, Branches.withoutLines]

theorem branchesWith_run_done (hne : s.tokens.next.1 ≠ .word "WHEN") (subject : Option String) :
    branchesWith statement? subject s = branchesWith statement? none s := by
  obtain ⟨waiting, haccept, -⟩ :=
    exists_accept_run_not (next_run s) (TokenStream.pending_next _) hne
  have hnone (subject : Option String) : whenWith? statement? subject s = .ok none waiting := by
    rw [whenWith?, bind_run, haccept]
    rfl
  rw [branchesWith, branchesWith, bind_run, bind_run, many_run_none (hnone _),
    many_run_none (hnone _)]

theorem branchesWith_run_error {subject : Option String} {e : Error} {s' : Reading}
    (h : whenWith? statement? subject s = .error e s') :
    branchesWith statement? subject s = .error e s' := by
  rw [branchesWith, bind_run, many_run_error h]

/-- The branches are the same, whichever way they are written. -/
theorem RespelledBranches.endAlike (h : RespelledBranches subject s rest) (ht : Resumes s rest t) :
    EndAlike Statement.Alike (branchesWith statement? (some subject.text) s)
      (branchesWith statement? none t) := by
  induction h generalizing t with
  | done hne =>
      rw [branchesWith_run_done hne]
      exact (tracks_branchesWith inStep_statement? none).endAlike (ht.alike hne)
  | @branch s after question common rest branch hlist hrun hrest ih =>
      obtain ⟨s', t', hs, ht, hparting⟩ :=
        exists_whenWith?_runs ht.related hlist ht.toList
      have hbody := hrun
      rw [hs] at hbody
      obtain ⟨body, _, hbody, hvalue⟩ := bind_eq_ok.1 hbody
      cases hvalue
      obtain ⟨body', after', hbody', halike, hresumes⟩ :=
        exists_resumes hparting hrest hbody
      have hrun' : whenWith? statement? none t = .ok (some (question.expr, body')) after' := by
        rw [ht]
        exact bind_eq_ok.2 ⟨body', after', hbody', rfl⟩
      rw [branchesWith_run_some hrun, branchesWith_run_some hrun']
      exact (ih hresumes).bind fun others others' _ _ hothers hreading =>
        .ok (withBranch_alike ⟨rfl, halike⟩ hothers) hreading
  | @broken s last question common rest other e hlist hrun hrest =>
      obtain ⟨s', t', hs, ht, hparting⟩ :=
        exists_whenWith?_runs ht.related hlist ht.toList
      have hbody : blockWith statement? s' = .error e last := by
        rw [hs, bind_run] at hrun
        generalize blockWith statement? s' = run at hrun ⊢
        cases run with
        | ok body after => cases hrun
        | error e' last' =>
            cases hrun
            rfl
      have hends :=
        hparting.endAlike (fun _ => tracks_blockWith inStep_statement? s' t') hrest hbody
      rw [hbody] at hends
      obtain ⟨e', last', hbody', herror⟩ := hends.of_error
      have hrun' : whenWith? statement? none t = .error e' last' := by
        rw [ht, bind_run, hbody']
      rw [branchesWith_run_error hrun, branchesWith_run_error hrun']
      exact .error herror

/-! ## The whole SELECT -/

/-- A SELECT is read alike, with its subject in the header or in each comparison. -/
theorem endAlike_statement? {tail : List Token} (hst : s.Related SameEnd t)
    (hs : s.tokens.toList =
      .word "SELECT" :: (subjectTokens (some subject) ++ .word "WHEN" :: tail))
    (ht : t.tokens.toList = .word "SELECT" :: rest)
    (hrest : RespelledBranches subject (s.skip (subject.tokens.length + 3)) rest) :
    EndAlike (Option.Rel Statement.Alike) (statement? s) (statement? t) := by
  obtain ⟨htoList, hexhausted⟩ := Reading.toList_skip (s := s) (n := subject.tokens.length + 3)
    (by simp [hs, subjectTokens])
  have hdrop : (s.skip (subject.tokens.length + 3)).tokens.toList = .word "WHEN" :: tail := by
    simp [htoList, hs, subjectTokens, List.drop_append]
  have hwhen := (TokenStream.toList_eq_cons_iff.1 hdrop).1
  obtain ⟨-, other, -, -, rfl⟩ := hrest.exists_cons hwhen
  obtain ⟨waiting, hselect, hwaiting, hexhausted'⟩ :=
    exists_selectWith_run_none (next_skip (s := t) (n := 0) ht).2
  have hresumes : Resumes (s.skip (subject.tokens.length + 3)) (.word "WHEN" :: other)
      ((t.skip 1).readTo waiting []) := by
    have hskip := (Reading.toList_skip (s := t) (n := 1) (by simp [ht])).2
    refine ⟨{ hst with tokens := ?_ }, hwaiting, fun h => absurd hwhen h⟩
    exact hexhausted.trans (hst.tokens.trans (hexhausted'.trans hskip).symm)
  have hends : EndAlike Statement.Alike (selectWith statement? (s.skip 1))
      (selectWith statement? (t.skip 1)) := by
    rw [selectWith_run subject (next_skip (n := 0) hs).2, Nat.add_comm 1, hselect]
    exact hrest.endAlike hresumes
  rw [statement?_run_select hs, statement?_run_select ht]
  exact hends.bind fun _ _ _ _ hstatement hreading => .ok (.some hstatement) hreading

end ClassSelection.Source
