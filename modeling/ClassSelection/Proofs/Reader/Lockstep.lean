import ClassSelection.Proofs.Reader.Termination
import ClassSelection.Proofs.Token.Lexing

/-!
# Two runs in step

Two streams are alike if they yield the same tokens, however the texts between
them differ, and forked if they do so up to a point where the texts part.
`Lockstep` says of a reader that from alike readings it comes to alike readings
and related values, or to the same error, lines apart; from forked readings it
does so too, unless it reads on beyond the fork.  `Tracks` adds a probe, which
does what the reader does but may stop on its way: then nothing is asked of
what the probe has not seen.

Both are kept by sequencing, and by the loops and recursions through the levels
of `EndsAt`: what is left to read differs between the runs, so the comparisons
in `many` and `nest` cannot be followed in step.
-/

namespace ClassSelection

/-- What two texts have left where they part. -/
structure Fork where
  tail : List Token
  other : List Token
  ne_nil : tail ≠ []

instance : Inhabited Fork :=
  ⟨⟨[.endOfSource], [], by simp⟩⟩

namespace TokenStream

structure Alike (s t : TokenStream) : Prop where
  pending : s.pending = t.pending
  lex : Token.lex s.rest = Token.lex t.rest
  exhausted : s.exhausted = t.exhausted

structure Forked (fork : Fork) (s t : TokenStream) : Prop where
  pending : s.pending = t.pending
  lex : ∃ common, Token.lex s.rest = common ++ fork.tail ∧ Token.lex t.rest = common ++ fork.other
  exhausted : s.exhausted = t.exhausted

/-- More has been scanned than what comes before the fork. -/
def Beyond (fork : Fork) (s : TokenStream) : Prop :=
  (Token.lex s.rest).length < fork.tail.length

theorem alike_ofSource {source other : String}
    (h : (ofSource source).toList = (ofSource other).toList) :
    (ofSource source).Alike (ofSource other) :=
  ⟨rfl, by rwa [toList_ofSource, toList_ofSource] at h, rfl⟩

theorem Alike.next {s t : TokenStream} (h : s.Alike t) :
    s.next.1 = t.next.1 ∧ s.next.2.Alike t.next.2 := by
  obtain ⟨line, rest, pending, exhausted⟩ := s
  obtain ⟨line', rest', pending', exhausted'⟩ := t
  obtain ⟨rfl, hlex, rfl⟩ := h
  cases pending with
  | some token => exact ⟨rfl, rfl, hlex, rfl⟩
  | none =>
      dsimp only at hlex
      obtain ⟨htoken, hrest⟩ := Token.read_of_lex_eq hlex line line'
      refine ⟨htoken, rfl, hrest, ?_⟩
      simp only [TokenStream.next, htoken]

section

variable {fork : Fork} {s t s' : TokenStream} {token : Token}

theorem Forked.next (h : s.Forked fork t) :
    s.next.2.Beyond fork ∨ s.next.1 = t.next.1 ∧ s.next.2.Forked fork t.next.2 := by
  obtain ⟨line, rest, pending, exhausted⟩ := s
  obtain ⟨line', rest', pending', exhausted'⟩ := t
  obtain ⟨rfl, ⟨common, hlex, hlex'⟩, rfl⟩ := h
  dsimp only at hlex hlex'
  cases pending with
  | some token => exact .inr ⟨rfl, rfl, ⟨common, hlex, hlex'⟩, rfl⟩
  | none =>
      cases common with
      | nil =>
          obtain ⟨token, tail, htail⟩ := List.exists_cons_of_ne_nil fork.ne_nil
          rw [List.nil_append, htail] at hlex
          left
          simp [Beyond, TokenStream.next, (Token.read_of_lex_eq_cons hlex line).2, htail]
      | cons token common =>
          obtain ⟨htoken, hrest⟩ := Token.read_of_lex_eq_cons hlex line
          obtain ⟨htoken', hrest'⟩ := Token.read_of_lex_eq_cons hlex' line'
          refine .inr ⟨htoken.trans htoken'.symm, rfl, ⟨common, hrest, hrest'⟩, ?_⟩
          simp only [TokenStream.next, htoken, htoken']

theorem Beyond.next (h : s.Beyond fork) : s.next.2.Beyond fork := by
  obtain ⟨line, rest, pending, exhausted⟩ := s
  cases pending with
  | some token => exact h
  | none => exact Nat.lt_of_le_of_lt (Token.length_lex_read_le line rest) h

theorem Beyond.pushBack? (h : s.Beyond fork) (hback : s.pushBack? token = some s') :
    s'.Beyond fork := by
  obtain ⟨line, rest, pending, exhausted⟩ := s
  cases pending with
  | some waiting => cases hback
  | none =>
      cases hback
      exact h

/-- A token can be put back into streams that have the same token waiting, or neither can. -/
theorem pushBack?_of_pending (h : s.pending = t.pending) (token : Token) :
    s.pushBack? token = none ∧ t.pushBack? token = none ∨
      s.pushBack? token = some { s with pending := some token } ∧
        t.pushBack? token = some { t with pending := some token } := by
  unfold TokenStream.pushBack?
  rw [← h]
  cases s.pending with
  | some waiting => exact .inl ⟨rfl, rfl⟩
  | none => exact .inr ⟨rfl, rfl⟩

/-! ## Related streams as lists -/

theorem toList_of_pending_eq_some (h : s.pending = some token) (hne : token ≠ .endOfSource) :
    s.toList = token :: Token.lex s.rest := by
  obtain ⟨line, rest, pending, exhausted⟩ := s
  subst h
  exact toList_eq_cons_iff.2 ⟨rfl, hne, toList_of_pending_eq_none rfl⟩

theorem toList_of_pending_eq_end (h : s.pending = some .endOfSource) : s.toList = [] := by
  obtain ⟨line, rest, pending, exhausted⟩ := s
  subst h
  exact toList_eq_nil_iff.2 rfl

theorem length_toList_le (s : TokenStream) : s.toList.length ≤ (Token.lex s.rest).length + 1 := by
  match h : s.pending with
  | none => exact toList_of_pending_eq_none h ▸ Nat.le_succ _
  | some token =>
      by_cases hend : token = .endOfSource
      · rw [toList_of_pending_eq_end (hend ▸ h)]
        exact Nat.zero_le _
      · rw [toList_of_pending_eq_some h hend]
        exact Nat.le_refl _

theorem Alike.toList (h : s.Alike t) : s.toList = t.toList := by
  match hpending : s.pending with
  | none =>
      rw [toList_of_pending_eq_none hpending,
        toList_of_pending_eq_none (h.pending ▸ hpending), h.lex]
  | some token =>
      by_cases hend : token = .endOfSource
      · subst hend
        rw [toList_of_pending_eq_end hpending, toList_of_pending_eq_end (h.pending ▸ hpending)]
      · rw [toList_of_pending_eq_some hpending hend,
          toList_of_pending_eq_some (h.pending ▸ hpending) hend, h.lex]

/-- Where more than the fork's tail is left, not more than what comes before it has been scanned. -/
theorem not_beyond (h : fork.tail.length < s.toList.length) : ¬s.Beyond fork := by
  have := s.length_toList_le
  unfold Beyond
  omega

theorem Forked.toList (h : s.Forked fork t) (hne : s.toList ≠ []) :
    ∃ common, s.toList = common ++ fork.tail ∧ t.toList = common ++ fork.other := by
  obtain ⟨common, hlex, hlex'⟩ := h.lex
  match hpending : s.pending with
  | none =>
      refine ⟨common, ?_, ?_⟩
      · rw [toList_of_pending_eq_none hpending, hlex]
      · rw [toList_of_pending_eq_none (h.pending ▸ hpending), hlex']
  | some token =>
      have hend : token ≠ .endOfSource := by
        rintro rfl
        exact hne (toList_of_pending_eq_end hpending)
      refine ⟨token :: common, ?_, ?_⟩
      · rw [toList_of_pending_eq_some hpending hend, hlex, List.cons_append]
      · rw [toList_of_pending_eq_some (h.pending ▸ hpending) hend, hlex', List.cons_append]

theorem Forked.toList_cons (h : s.Forked fork t) (hs : s.toList = token :: fork.tail) :
    t.toList = token :: fork.other := by
  obtain ⟨common, hcommon, ht⟩ := h.toList (by simp [hs])
  have htoken : [token] ++ fork.tail = common ++ fork.tail := hs.symm.trans hcommon
  rw [ht, ← List.append_cancel_right htoken]
  rfl

section

variable (hs : s.pending = none) (ht : t.pending = none) (hexhausted : s.exhausted = t.exhausted)

include hs ht hexhausted

theorem alike_of_toList (h : s.toList = t.toList) : s.Alike t := by
  rw [toList_of_pending_eq_none hs, toList_of_pending_eq_none ht] at h
  exact ⟨hs.trans ht.symm, h, hexhausted⟩

theorem forked_of_toList {common : List Token} (hcommon : s.toList = common ++ fork.tail)
    (hother : t.toList = common ++ fork.other) : s.Forked fork t := by
  rw [toList_of_pending_eq_none hs] at hcommon
  rw [toList_of_pending_eq_none ht] at hother
  exact ⟨hs.trans ht.symm, ⟨common, hcommon, hother⟩, hexhausted⟩

end

end

end TokenStream

def Error.withoutLine : Error → Error
  | invalidRoutine name _ => invalidRoutine name 0
  | invalidTarget found _ => invalidTarget found 0
  | targetMismatch found routine _ => targetMismatch found routine 0
  | missingToken expected found _ => missingToken expected found 0
  | invalidComparator found _ => invalidComparator found 0
  | invalidComparison left comparator right _ => invalidComparison left comparator right 0
  | invalidSelect found _ => invalidSelect found 0
  | scopeMismatch construct _ => scopeMismatch construct 0
  | exitWithoutRule _ => exitWithoutRule 0
  | tokenPutBackTwice _ => tokenPutBackTwice 0
  | error => error

structure Reading.Related (R : TokenStream → TokenStream → Prop) (s t : Reading) : Prop where
  tokens : R s.tokens t.tokens
  registry : s.registry = t.registry
  anomalies : s.anomalies.map Anomaly.kind = t.anomalies.map Anomaly.kind
  filterLists : s.filterLists = t.filterLists
  kind : s.kind = t.kind
  assigned : s.assigned = t.assigned

abbrev Reading.Alike (s t : Reading) : Prop :=
  s.Related TokenStream.Alike t

abbrev Reading.Forked (fork : Fork) (s t : Reading) : Prop :=
  s.Related (TokenStream.Forked fork) t

theorem Reading.Related.mono {R R' : TokenStream → TokenStream → Prop} {s t : Reading}
    (h : s.Related R t) (htokens : R s.tokens t.tokens → R' s.tokens t.tokens) :
    s.Related R' t :=
  { h with tokens := htokens h.tokens }

theorem Reading.related_refl {R : TokenStream → TokenStream → Prop} {s : Reading}
    (h : R s.tokens s.tokens) : s.Related R s :=
  ⟨h, rfl, rfl, rfl, rfl, rfl⟩

namespace Reader

variable {α β : Type} {same : α → α → Prop} {same' : β → β → Prop} {fork : Fork}

def final : EStateM.Result Error Reading α → Reading
  | .ok _ s => s
  | .error _ s => s

inductive EndAlike (same : α → α → Prop) :
    EStateM.Result Error Reading α → EStateM.Result Error Reading α → Prop
  | ok {a b : α} {s t : Reading} (hvalue : same a b) (hreading : s.Alike t) :
      EndAlike same (.ok a s) (.ok b t)
  | error {e e' : Error} {s t : Reading} (h : e.withoutLine = e'.withoutLine) :
      EndAlike same (.error e s) (.error e' t)

/-- As far as the probe sees, two runs end with related values in forked readings.  It may stop
where they end alike, and sees nothing beyond the fork. -/
inductive EndForked (fork : Fork) (same : α → α → Prop) :
    EStateM.Result Error Reading α → EStateM.Result Error Reading α →
      EStateM.Result Error Reading α → Prop
  | ok {a b : α} {s t : Reading} (hvalue : same a b) (hreading : s.Forked fork t) :
      EndForked fork same (.ok a s) (.ok a s) (.ok b t)
  | stopped {e : Error} {s : Reading} {run other : EStateM.Result Error Reading α}
      (h : EndAlike same run other) : EndForked fork same (.error e s) run other
  | beyond {probe run other : EStateM.Result Error Reading α}
      (h : (final probe).tokens.Beyond fork) : EndForked fork same probe run other

/-- From two readings, the runs end as they should, and the probe does not come back from beyond the
fork. -/
structure TracksAt (fork : Fork) (same : α → α → Prop) (s t : Reading)
    (probe run other : EStateM.Result Error Reading α) : Prop where
  ok {a : α} {s' : Reading} (hprobe : probe = .ok a s') : run = .ok a s' ∧ ∃ b, same a b
  alike (h : s.Alike t) : EndAlike same run other
  forked (h : s.Forked fork t) : EndForked fork same probe run other
  beyond (h : s.tokens.Beyond fork) : (final probe).tokens.Beyond fork

def Tracks (fork : Fork) (same : α → α → Prop) (probe x y : Reader α) : Prop :=
  ∀ s t, TracksAt fork same s t (probe s) (x s) (y t)

abbrev Lockstep (fork : Fork) (same : α → α → Prop) (x y : Reader α) : Prop :=
  Tracks fork same x x y

/-! ## Sequences -/

theorem EndAlike.mono {strong : α → α → Prop} {run other : EStateM.Result Error Reading α}
    (h : EndAlike strong run other) (hsame : ∀ a b, strong a b → same a b) :
    EndAlike same run other := by
  cases h with
  | ok hvalue hreading => exact .ok (hsame _ _ hvalue) hreading
  | error h => exact .error h

theorem EndAlike.of_ok {a : α} {s : Reading} {other : EStateM.Result Error Reading α}
    (h : EndAlike same (.ok a s) other) : ∃ b t, other = .ok b t ∧ same a b ∧ s.Alike t := by
  cases h with
  | ok hvalue hreading => exact ⟨_, _, rfl, hvalue, hreading⟩

theorem EndAlike.of_error {e : Error} {s : Reading} {other : EStateM.Result Error Reading α}
    (h : EndAlike same (.error e s) other) :
    ∃ e' t, other = .error e' t ∧ e.withoutLine = e'.withoutLine := by
  cases h with
  | error h => exact ⟨_, _, rfl, h⟩

theorem EndForked.mono {strong : α → α → Prop} {probe run other : EStateM.Result Error Reading α}
    (h : EndForked fork strong probe run other) (hsame : ∀ a b, strong a b → same a b) :
    EndForked fork same probe run other := by
  cases h with
  | ok hvalue hreading => exact .ok (hsame _ _ hvalue) hreading
  | stopped h => exact .stopped (h.mono hsame)
  | beyond h => exact .beyond h

theorem EndForked.of_ok {a : α} {s : Reading} {run other : EStateM.Result Error Reading α}
    (h : EndForked fork same (.ok a s) run other) (hs : ¬s.tokens.Beyond fork) :
    ∃ b t, other = .ok b t ∧ same a b ∧ s.Forked fork t := by
  cases h with
  | ok hvalue hreading => exact ⟨_, _, rfl, hvalue, hreading⟩
  | beyond h => exact absurd h hs

theorem EndForked.of_error {e : Error} {s : Reading} {run other : EStateM.Result Error Reading α}
    (h : EndForked fork same (.error e s) run other) (hs : ¬s.tokens.Beyond fork) :
    EndAlike same run other := by
  cases h with
  | stopped h => exact h
  | beyond h => exact absurd h hs

theorem EndAlike.bind {x y : Reader α} {f g : α → Reader β} {s t : Reading}
    (h : EndAlike same (x s) (y t))
    (hf : ∀ a b s t, same a b → s.Alike t → EndAlike same' (f a s) (g b t)) :
    EndAlike same' ((x >>= f) s) ((y >>= g) t) := by
  rw [bind_run, bind_run]
  generalize x s = run, y t = other at h ⊢
  cases h with
  | ok hvalue hreading => exact hf _ _ _ _ hvalue hreading
  | error h => exact .error h

/-- What stops a probe stops it in the midst of a sequence, too. -/
theorem TracksAt.bind {probe x y : Reader α} {probe' f g : α → Reader β} {s t : Reading}
    (h : TracksAt fork same s t (probe s) (x s) (y t))
    (hf : ∀ a b, same a b → Tracks fork same' (probe' a) (f a) (g b)) :
    TracksAt fork same' s t ((probe >>= probe') s) ((x >>= f) s) ((y >>= g) t) where
  ok := by
    intro b final hrun
    obtain ⟨a, s', hprobe, hlater⟩ := bind_eq_ok.1 hrun
    obtain ⟨hx, a', hsame⟩ := h.ok hprobe
    rw [bind_run, hx]
    exact (hf a a' hsame s' s').ok hlater
  alike hst := (h.alike hst).bind fun a b s' t' hab hst' => (hf a b hab s' t').alike hst'
  forked hst := by
    have hruns := h.forked hst
    rw [bind_run probe]
    cases hprobe : probe s with
    | ok a s' =>
        rw [hprobe] at hruns
        generalize hx : x s = run, hy : y t = other at hruns
        cases hruns with
        | ok hvalue hreading =>
            rw [bind_run, bind_run, hx, hy]
            exact (hf _ _ hvalue _ _).forked hreading
        | beyond hbeyond =>
            obtain ⟨-, b, hsame⟩ := h.ok hprobe
            exact .beyond ((hf a b hsame s' s').beyond hbeyond)
    | error e s' =>
        rw [hprobe] at hruns
        cases hruns with
        | stopped hends =>
            exact .stopped (hends.bind fun a b s' t' hab hst' => (hf a b hab s' t').alike hst')
        | beyond hbeyond => exact .beyond hbeyond
  beyond hs := by
    have hbeyond := h.beyond hs
    rw [bind_run]
    cases hprobe : probe s with
    | error e s' =>
        rw [hprobe] at hbeyond
        exact hbeyond
    | ok a s' =>
        rw [hprobe] at hbeyond
        obtain ⟨-, b, hsame⟩ := h.ok hprobe
        exact (hf a b hsame s' s').beyond hbeyond

theorem TracksAt.endAlike {probe run other : EStateM.Result Error Reading α} {s t : Reading}
    (h : TracksAt default same s t probe run other) (hst : s.Alike t) : EndAlike same run other :=
  h.alike hst

theorem Tracks.endAlike {probe x y : Reader α} {s t : Reading}
    (h : Tracks default same probe x y) (hst : s.Alike t) : EndAlike same (x s) (y t) :=
  (h s t).alike hst

namespace Tracks

variable {probe x y : Reader α} {probe' f g : α → Reader β}

theorem mono {strong : α → α → Prop} (h : Tracks fork strong probe x y)
    (hsame : ∀ a b, strong a b → same a b) : Tracks fork same probe x y := by
  intro s t
  refine ⟨fun hprobe => ?_, fun hst => ((h s t).alike hst).mono hsame,
    fun hst => ((h s t).forked hst).mono hsame, (h s t).beyond⟩
  obtain ⟨hx, b, hab⟩ := (h s t).ok hprobe
  exact ⟨hx, b, hsame _ _ hab⟩

theorem bind (h : Tracks fork same probe x y)
    (hf : ∀ a b, same a b → Tracks fork same' (probe' a) (f a) (g b)) :
    Tracks fork same' (probe >>= probe') (x >>= f) (y >>= g) :=
  fun s t => (h s t).bind hf

theorem andThen (h : Tracks fork Eq probe x y)
    (hf : ∀ a, Tracks fork same' (probe' a) (f a) (g a)) :
    Tracks fork same' (probe >>= probe') (x >>= f) (y >>= g) :=
  h.bind fun a _ hab => hab ▸ hf a

theorem pure {a b : α} (h : same a b) : Lockstep fork same (pure a) (pure b) := by
  refine fun s t => ⟨?_, fun hst => .ok h hst, fun hst => .ok h hst, fun hs => hs⟩
  rintro _ _ ⟨⟩
  exact ⟨rfl, b, h⟩

theorem map {f : α → β} (h : Tracks fork same probe x y)
    (hf : ∀ a b, same a b → same' (f a) (f b)) :
    Tracks fork same' (f <$> probe) (f <$> x) (f <$> y) :=
  h.bind fun a b hab => pure (hf a b hab)

/-- Of a reading, all is known but its lines and what it has left. -/
theorem get : Lockstep fork (Reading.Related fun a b => a.exhausted = b.exhausted)
    (MonadState.get : Reader Reading) MonadState.get := by
  refine fun s t => ⟨?_, fun hst => .ok (hst.mono (·.exhausted)) hst,
    fun hst => .ok (hst.mono (·.exhausted)) hst, fun hs => hs⟩
  rintro _ _ ⟨⟩
  exact ⟨rfl, s, Reading.related_refl rfl⟩

theorem modify {f g : Reading → Reading}
    (h : ∀ {R : TokenStream → TokenStream → Prop} {s t}, s.Related R t → (f s).Related R (g t)) :
    Lockstep fork Eq (modify f : Reader Unit) (modify g) := by
  refine fun s t => ⟨?_, fun hst => .ok rfl (h hst), fun hst => .ok rfl (h hst), fun hs => ?_⟩
  · rintro _ _ ⟨⟩
    exact ⟨rfl, (), rfl⟩
  · have htokens : (f s).Related (fun a _ => a = s.tokens) (g s) := h (Reading.related_refl rfl)
    exact htokens.tokens ▸ hs

theorem throw {e e' : Error} (h : e.withoutLine = e'.withoutLine) :
    Lockstep fork same (throw e : Reader α) (throw e') := by
  refine fun s t => ⟨?_, fun _ => .error h, fun _ => .stopped (.error h), fun hs => hs⟩
  rintro _ _ ⟨⟩

end Tracks

/-! ## Steps -/

/-- The lines that the two runs have reached may differ. -/
theorem lockstep_line : Lockstep fork (fun _ _ => True) line line :=
  Tracks.get.bind fun _ _ _ => .pure trivial

theorem lockstep_throw_line_bind {error : Nat → Error} {f g : β → Reader α}
    (h : ∀ line line', (error line).withoutLine = (error line').withoutLine) :
    Lockstep fork same (line >>= fun line => throw (error line) >>= f)
      (line >>= fun line => throw (error line) >>= g) := by
  refine lockstep_line.bind fun line line' _ => ?_
  have hthrow : Lockstep fork (fun _ _ => False) (throw (error line) : Reader β)
      (throw (error line')) := .throw (h line line')
  exact hthrow.bind fun _ _ hfalse => hfalse.elim

theorem lockstep_throw_line {error : Nat → Error}
    (h : ∀ line line', (error line).withoutLine = (error line').withoutLine) :
    Lockstep fork same (do throw (error (← line)) : Reader α) (do throw (error (← line))) :=
  lockstep_line.bind fun line line' _ => .throw (h line line')

theorem lockstep_missing {expected : String} {found : Token} :
    Lockstep fork same (missing expected found : Reader α) (missing expected found) :=
  lockstep_throw_line fun _ _ => rfl

theorem lockstep_missing_bind {expected : String} {found : Token} {f g : β → Reader α} :
    Lockstep fork same (missing expected found >>= f) (missing expected found >>= g) := by
  have hmissing : Lockstep fork (fun _ _ => False) (missing expected found : Reader β)
      (missing expected found) := lockstep_missing
  exact hmissing.bind fun _ _ hfalse => hfalse.elim

theorem lockstep_next : Lockstep fork Eq next next := by
  refine fun s t => ⟨?_, fun hst => ?_, fun hst => ?_, fun hs => hs.next⟩
  · rintro _ _ ⟨⟩
    exact ⟨rfl, _, rfl⟩
  · obtain ⟨htoken, htokens⟩ := hst.tokens.next
    exact .ok htoken { hst with tokens := htokens }
  · obtain hbeyond | ⟨htoken, htokens⟩ := hst.tokens.next
    · exact .beyond hbeyond
    · exact .ok htoken { hst with tokens := htokens }

theorem lockstep_putBack {token : Token} : Lockstep fork Eq (putBack token) (putBack token) := by
  intro s t
  unfold putBack
  refine ⟨fun hrun => ⟨hrun, _, rfl⟩, fun hst => ?_, fun hst => ?_, fun hs => ?_⟩
  · obtain ⟨hs, ht⟩ | ⟨hs, ht⟩ := TokenStream.pushBack?_of_pending hst.tokens.pending token
    · rw [hs, ht]
      exact .error rfl
    · rw [hs, ht]
      exact .ok rfl { hst with tokens := { hst.tokens with pending := rfl } }
  · obtain ⟨hs, ht⟩ | ⟨hs, ht⟩ := TokenStream.pushBack?_of_pending hst.tokens.pending token
    · rw [hs, ht]
      exact .stopped (.error rfl)
    · rw [hs, ht]
      exact .ok rfl { hst with tokens := { hst.tokens with pending := rfl } }
  · cases hback : s.tokens.pushBack? token with
    | none => exact hs
    | some tokens => exact hs.pushBack? hback

theorem lockstep_accept {wanted : Token → Bool} :
    Lockstep fork Eq (accept wanted) (accept wanted) := by
  refine lockstep_next.andThen fun token => ?_
  split
  · exact .pure rfl
  · exact lockstep_putBack.andThen fun _ => .pure rfl

theorem lockstep_expect {symbol : Char} {expected : String} :
    Lockstep fork Eq (expect symbol expected) (expect symbol expected) := by
  refine lockstep_next.andThen fun token => ?_
  split
  · exact .pure rfl
  · exact lockstep_missing

theorem lockstep_report {kind : AnomalyKind} : Lockstep fork Eq (report kind) (report kind) := by
  refine lockstep_line.bind fun line line' _ => .modify fun hst => ?_
  exact { hst with anomalies := by simp [hst.anomalies] }

theorem lockstep_register {name : String} : Lockstep fork Eq (register name) (register name) :=
  .modify fun hst => { hst with registry := by rw [hst.registry] }

/-! ## Loops and recursion -/

/-- A recursion that ends tracks another one if each pair of their levels does, by a property kept
from one level to the next. -/
theorem EndsAt.tracksAt {P : Reader α → Reader α → Prop} {probeLevel level : Reader α → Reader α}
    {probe reader : Reader α} {s t : Reading} (hprobe : EndsAt probeLevel probe s)
    (hs : EndsAt level reader s) (ht : EndsAt level reader t)
    (hbelow : P (throw (.tokenPutBackTwice 0)) (throw (.tokenPutBackTwice 0)))
    (hlevel : ∀ probe nested, P probe nested → P (probeLevel probe) (level nested))
    (h : ∀ probe nested, P probe nested → Tracks fork same probe nested nested) :
    TracksAt fork same s t (probe s) (reader s) (reader t) := by
  have hlevels (depth : Nat) : P (probeLevel^[depth] (throw (.tokenPutBackTwice 0)))
      (level^[depth] (throw (.tokenPutBackTwice 0))) := by
    induction depth with
    | zero => exact hbelow
    | succ depth ih =>
        rw [Function.iterate_succ_apply', Function.iterate_succ_apply']
        exact hlevel _ _ ih
  -- enough levels for the one run and for the other
  have hdepth := h _ _ (hlevels (max (s.tokens.remaining + 2) (t.tokens.remaining + 2))) s t
  rwa [hprobe _ (by omega), hs _ (by omega), ht _ (by omega)] at hdepth

theorem tracks_round {probe item : Reader (Option α)} {probe' later : Reader (List α)}
    (h : Tracks fork (Option.Rel same) probe item item)
    (hlater : Tracks fork (List.Forall₂ same) probe' later later) :
    Tracks fork (List.Forall₂ same) (round probe probe') (round item later) (round item later) := by
  refine h.bind fun found found' hfound => ?_
  cases hfound with
  | none => exact .pure .nil
  | some hfirst => exact hlater.bind fun _ _ hothers => .pure (.cons hfirst hothers)

theorem EndsAt.tracksAt_many {probe item : Reader (Option α)} {s t : Reading}
    (hprobe : EndsAt (round probe) (many probe) s) (hs : EndsAt (round item) (many item) s)
    (ht : EndsAt (round item) (many item) t)
    (h : Tracks fork (Option.Rel same) probe item item) :
    TracksAt fork (List.Forall₂ same) s t (many probe s) (many item s) (many item t) :=
  hprobe.tracksAt hs ht (P := fun probe later => Tracks fork (List.Forall₂ same) probe later later)
    (.throw rfl) (fun _ _ hlater => tracks_round h hlater) (fun _ _ hlater => hlater)

theorem tracks_many {probe item : Reader (Option α)}
    (hprobe : ∀ bound, Agree bound ifSome probe probe)
    (htaken : ∀ bound, Agree bound ifSome item item)
    (h : Tracks fork (Option.Rel same) probe item item) :
    Tracks fork (List.Forall₂ same) (many probe) (many item) (many item) := by
  intro s t
  have hprogresses := Progresses.of_agree htaken
  exact ((Progresses.of_agree hprobe).endsAt trivial).tracksAt_many
    (hprogresses.endsAt trivial) (hprogresses.endsAt trivial) h

theorem lockstep_many_eq {item : Reader (Option α)}
    (htaken : ∀ bound, Agree bound ifSome item item) (h : Lockstep fork Eq item item) :
    Lockstep fork Eq (many item) (many item) := by
  have hitem : Lockstep fork (Option.Rel Eq) item item := by
    refine h.mono ?_
    rintro (_ | a) _ rfl
    · exact .none
    · exact .some rfl
  refine (tracks_many htaken htaken hitem).mono fun found found' hfound => ?_
  rwa [List.forall₂_eq_eq_eq] at hfound

end Reader

end ClassSelection
