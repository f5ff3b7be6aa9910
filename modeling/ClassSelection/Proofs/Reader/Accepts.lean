import ClassSelection.Proofs.Reader.Grammar

/-!
# What a reader accepts

`Accepts` says of a reader that it succeeds exactly on the tokens of a form,
and that its value, its rest and the tests it has read are those of the form.
Forms compose as readers do, so the form of a reader is read off its text and
then shown to be a phrase of a grammar.  The bound on the tokens makes room for
recursion: what is nested comes after a token, where less is left.
-/

namespace ClassSelection

/-- The second reading has the variables and anomalies of the tests in addition, in their order, and
is the first one otherwise, apart from its tokens. -/
structure Reading.Gains (s s' : Reading) (tests : List WrittenTest) : Prop where
  registry : s'.registry =
    tests.foldl (fun registry written => (registry.add written.test.subject).2) s.registry
  anomalies : s'.anomalies.map Anomaly.kind =
    s.anomalies.map Anomaly.kind ++ tests.filterMap WrittenTest.anomaly?
  filterLists : s'.filterLists = s.filterLists
  kind : s'.kind = s.kind
  assigned : s'.assigned = s.assigned

namespace Reading.Gains

variable {s s' s'' : Reading} {tests tests' : List WrittenTest}

theorem refl (s : Reading) : s.Gains s [] :=
  ⟨rfl, by simp, rfl, rfl, rfl⟩

theorem trans (h : s.Gains s' tests) (h' : s'.Gains s'' tests') :
    s.Gains s'' (tests ++ tests') where
  registry := by rw [h'.registry, h.registry, List.foldl_append]
  anomalies := by rw [h'.anomalies, h.anomalies, List.filterMap_append, List.append_assoc]
  filterLists := h'.filterLists.trans h.filterLists
  kind := h'.kind.trans h.kind
  assigned := h'.assigned.trans h.assigned

theorem of_tokens {tokens : TokenStream} (h : Gains { s with tokens } s' tests) :
    s.Gains s' tests :=
  ⟨h.registry, h.anomalies, h.filterLists, h.kind, h.assigned⟩

end Reading.Gains

theorem TokenStream.toList_pushBack?_next {stream after : TokenStream}
    (h : stream.next.2.pushBack? stream.next.1 = some after) : after.toList = stream.toList := by
  have hnext := next_pushBack? h
  by_cases hend : stream.next.1 = .endOfSource
  · rw [toList_eq_nil_iff.2 hend, toList_eq_nil_iff]
    rw [hnext]
    exact hend
  · rw [toList_of_next hend, toList_eq_cons_iff, hnext]
    exact ⟨rfl, hend, rfl⟩

def Quiet {γ : Type} (form : List Token → List Token → γ → Prop) : Form γ :=
  fun before after value tests => form before after value ∧ tests = []

def Blank {γ : Type} (value : γ) : List Token → List Token → γ → Prop :=
  fun before after found => after = before ∧ found = value

inductive Repeated {γ : Type} (form : Form (Option γ)) : Form (List γ)
  | done {before after : List Token} {tests : List WrittenTest}
      (h : form before after none tests) : Repeated form before after [] tests
  | more {before middle after : List Token} {first : γ} {others : List γ}
      {tests tests' : List WrittenTest} (hfirst : form before middle (some first) tests)
      (hothers : Repeated form middle after others tests') :
      Repeated form before after (first :: others) (tests ++ tests')

namespace Reader

theorem next_fst_eq_upcoming (stream : TokenStream) : stream.next.1 = upcoming stream.toList := by
  by_cases hend : stream.next.1 = .endOfSource
  · rw [TokenStream.toList_eq_nil_iff.2 hend, hend]
    rfl
  · rw [TokenStream.toList_of_next hend]
    rfl

variable {α β γ δ : Type} {bound : Nat} {view : α → γ} {form form' : Form γ}

/-- With fewer tokens left than the bound, the reader succeeds exactly on the form. -/
structure Accepts (bound : Nat) (x : Reader α) (view : α → γ) (form : Form γ) : Prop where
  sound {s s' : Reading} {a : α} (hs : s.tokens.toList.length < bound) (hrun : x s = .ok a s') :
    s'.tokens.toList.length ≤ s.tokens.toList.length ∧
      ∃ tests, form s.tokens.toList s'.tokens.toList (view a) tests ∧ s.Gains s' tests
  complete {s : Reading} {rest : List Token} {value : γ} {tests : List WrittenTest}
    (hs : s.tokens.toList.length < bound) (hform : form s.tokens.toList rest value tests) :
    ∃ a s', x s = .ok a s' ∧ view a = value ∧ s'.tokens.toList = rest ∧ s.Gains s' tests

namespace Accepts

theorem congr {x : Reader α} (h : Accepts bound x view form)
    (hform : ∀ before after value tests,
      form before after value tests ↔ form' before after value tests) :
    Accepts bound x view form' := by
  refine ⟨fun hs hrun => ?_, fun hs hform' => h.complete hs ((hform _ _ _ _).2 hform')⟩
  obtain ⟨hle, tests, hsound, hgains⟩ := h.sound hs hrun
  exact ⟨hle, tests, (hform _ _ _ _).1 hsound, hgains⟩

/-! ## Sequences -/

theorem of_run {x : Reader α} {a : α} {tests : List WrittenTest}
    (h : ∀ s, ∃ s', x s = .ok a s' ∧ s'.tokens = s.tokens ∧ s.Gains s' tests) :
    Accepts bound x view fun before after value found =>
      after = before ∧ value = view a ∧ found = tests := by
  refine ⟨fun {s s' b} _ hrun => ?_, fun {s rest value found} _ hform => ?_⟩
  · obtain ⟨s'', hrun', htokens, hgains⟩ := h s
    rw [hrun'] at hrun
    cases hrun
    rw [htokens]
    exact ⟨Nat.le_refl _, tests, ⟨rfl, rfl, rfl⟩, hgains⟩
  · obtain ⟨rfl, rfl, rfl⟩ := hform
    obtain ⟨s', hrun, htokens, hgains⟩ := h s
    exact ⟨a, s', hrun, rfl, by rw [htokens], hgains⟩

theorem pure {a : α} {value : γ} (h : view a = value) :
    Accepts bound (pure a) view (Quiet (Blank value)) := by
  subst h
  exact (of_run fun s => ⟨s, rfl, rfl, .refl s⟩).congr fun _ _ _ _ => and_assoc.symm

theorem never {x : Reader α} (h : ∀ s a s', x s ≠ .ok a s') :
    Accepts bound x view fun _ _ _ _ => False :=
  ⟨fun _ hrun => absurd hrun (h _ _ _), fun _ hform => hform.elim⟩

theorem bind {x : Reader α} {f : α → Reader β} {view' : β → δ} {F : γ → Form δ}
    (hx : Accepts bound x view form)
    (hf : ∀ a value, view a = value → Accepts bound (f a) view' (F value)) :
    Accepts bound (x >>= f) view' fun before after value tests =>
      ∃ middle first earlierTests laterTests, form before middle first earlierTests ∧
        F first middle after value laterTests ∧ tests = earlierTests ++ laterTests := by
  refine ⟨fun hs hrun => ?_, fun hs hform => ?_⟩
  · obtain ⟨a, s', hxrun, hfrun⟩ := bind_eq_ok.1 hrun
    obtain ⟨hle, tests, hfirst, hgains⟩ := hx.sound hs hxrun
    obtain ⟨hle', tests', hlater, hgains'⟩ := (hf a _ rfl).sound (by omega) hfrun
    exact ⟨by omega, _, ⟨_, _, _, _, hfirst, hlater, rfl⟩, hgains.trans hgains'⟩
  · obtain ⟨middle, first, tests, tests', hfirst, hlater, rfl⟩ := hform
    obtain ⟨a, s', hxrun, hview, rfl, hgains⟩ := hx.complete hs hfirst
    have hle := (hx.sound hs hxrun).1
    obtain ⟨b, s'', hfrun, hvalue, hrest, hgains'⟩ := (hf a _ hview).complete (by omega) hlater
    exact ⟨b, s'', bind_eq_ok.2 ⟨a, s', hxrun, hfrun⟩, hvalue, hrest, hgains.trans hgains'⟩

theorem andThen {x : Reader α} {f : α → Reader β} {view' : β → δ} {F : α → Form δ}
    {phrase : List Token → List Token → α → Prop} (hx : Accepts bound x id (Quiet phrase))
    (hf : ∀ a, Accepts bound (f a) view' (F a)) :
    Accepts bound (x >>= f) view' fun before after value tests =>
      ∃ middle first, phrase before middle first ∧ F first middle after value tests := by
  have hlater (a value : α) (h : id a = value) : Accepts bound (f a) view' (F value) := by
    obtain rfl : a = value := h
    exact hf a
  refine (hx.bind hlater).congr fun before after value tests => ⟨?_, ?_⟩
  · rintro ⟨middle, first, _, _, ⟨hfirst, rfl⟩, hlater, rfl⟩
    exact ⟨middle, first, hfirst, hlater⟩
  · rintro ⟨middle, first, hfirst, hlater⟩
    exact ⟨middle, first, [], tests, ⟨hfirst, rfl⟩, hlater, rfl⟩

theorem map {x : Reader α} {g : α → β} {view' : β → δ} {h : γ → δ}
    (hx : Accepts bound x view form) (hg : ∀ a, view' (g a) = h (view a)) :
    Accepts bound (g <$> x) view' fun before after value tests =>
      ∃ first, form before after first tests ∧ value = h first := by
  have hbind : Accepts bound (x >>= fun a => Pure.pure (g a)) view' _ :=
    hx.bind fun a value hvalue => pure ((hg a).trans (congrArg h hvalue))
  refine hbind.congr fun before after value tests => ⟨?_, ?_⟩
  · rintro ⟨middle, first, tests, _, hfirst, ⟨⟨rfl, rfl⟩, rfl⟩, rfl⟩
    exact ⟨first, by rwa [List.append_nil], rfl⟩
  · rintro ⟨first, hfirst, rfl⟩
    exact ⟨after, first, tests, [], hfirst, ⟨⟨rfl, rfl⟩, rfl⟩, by rw [List.append_nil]⟩

/-! ## Tokens -/

theorem sound_next {f : Token → Reader α} {F : Token → Form γ} {s s' : Reading} {a : α}
    (hs : s.tokens.toList.length < bound) (hne : s.tokens.next.1 ≠ .endOfSource)
    (hf : Accepts (bound - 1) (f s.tokens.next.1) view (F s.tokens.next.1))
    (hrun : (Reader.next >>= f) s = .ok a s') :
    s'.tokens.toList.length ≤ s.tokens.toList.length ∧ ∃ tests,
      F s.tokens.next.1 s.tokens.next.2.toList s'.tokens.toList (view a) tests ∧
        s.Gains s' tests := by
  have htoList := TokenStream.toList_of_next hne
  rw [htoList, List.length_cons] at hs ⊢
  rw [bind_run, next_run] at hrun
  obtain ⟨hle, tests, hlater, hgains⟩ := hf.sound (s := { s with tokens := s.tokens.next.2 })
    (by dsimp only; omega) hrun
  dsimp only at hle hlater
  exact ⟨by omega, tests, hlater, hgains.of_tokens⟩

theorem complete_next {f : Token → Reader α} {F : Token → Form γ} {s : Reading} {token : Token}
    {middle rest : List Token} {value : γ} {tests : List WrittenTest}
    (hs : s.tokens.toList.length < bound) (htoList : s.tokens.toList = token :: middle)
    (hf : Accepts (bound - 1) (f token) view (F token)) (hlater : F token middle rest value tests) :
    ∃ a s', (Reader.next >>= f) s = .ok a s' ∧ view a = value ∧ s'.tokens.toList = rest ∧
      s.Gains s' tests := by
  rw [htoList, List.length_cons] at hs
  obtain ⟨rfl, -, rfl⟩ := TokenStream.toList_eq_cons_iff.1 htoList
  obtain ⟨a, s', hrun, hvalue, hrest, hgains⟩ := hf.complete
    (s := { s with tokens := s.tokens.next.2 }) (by dsimp only; omega) hlater
  refine ⟨a, s', ?_, hvalue, hrest, hgains.of_tokens⟩
  rw [bind_run, next_run]
  exact hrun

theorem next {f : Token → Reader α} {F : Token → Form γ}
    (hf : ∀ token, token ≠ .endOfSource → Accepts (bound - 1) (f token) view (F token))
    (hend : ∀ s a s', f .endOfSource s ≠ .ok a s') :
    Accepts bound (next >>= f) view fun before after value tests =>
      ∃ token middle, before = token :: middle ∧ token ≠ .endOfSource ∧
        F token middle after value tests := by
  refine ⟨fun {s s' a} hs hrun => ?_, fun {s rest value tests} hs hform => ?_⟩
  · have hne : s.tokens.next.1 ≠ .endOfSource := by
      intro heq
      rw [bind_run, next_run, heq] at hrun
      exact hend _ _ _ hrun
    obtain ⟨hle, tests, hlater, hgains⟩ := sound_next hs hne (hf _ hne) hrun
    exact ⟨hle, tests, ⟨_, _, TokenStream.toList_of_next hne, hne, hlater⟩, hgains⟩
  · obtain ⟨token, middle, hbefore, hne, hlater⟩ := hform
    exact complete_next hs hbefore (hf token hne) hlater

theorem peek {wanted : Token → Bool} {f : Token → Reader α} {g : Reader α} {F : Token → Form γ}
    {other : Form γ} (hend : wanted .endOfSource = false)
    (htaken : ∀ token, wanted token = true → Accepts (bound - 1) (f token) view (F token))
    (hleft : ∀ token, wanted token = false → f token = putBack token >>= fun _ => g)
    (hg : Accepts bound g view other) :
    Accepts bound (Reader.next >>= f) view fun before after value tests =>
      (∃ token middle, before = token :: middle ∧ wanted token = true ∧
        F token middle after value tests) ∨
      (wanted (upcoming before) = false ∧ other before after value tests) := by
  have hback {s : Reading} (hwanted : wanted s.tokens.next.1 = false) :
      ∃ tokens, tokens.toList = s.tokens.toList ∧ (Reader.next >>= f) s = g { s with tokens } := by
    obtain ⟨tokens, htokens⟩ := s.tokens.exists_pushBack?_next s.tokens.next.1
    refine ⟨tokens, TokenStream.toList_pushBack?_next htokens, ?_⟩
    rw [bind_run, next_run]
    dsimp only
    rw [hleft _ hwanted, bind_run, putBack]
    simp only [htokens]
  refine ⟨fun {s s' a} hs hrun => ?_, fun {s rest value tests} hs hform => ?_⟩
  · cases hwanted : wanted s.tokens.next.1 with
    | true =>
        have hne : s.tokens.next.1 ≠ .endOfSource := by
          intro heq
          rw [heq, hend] at hwanted
          cases hwanted
        have htoList := TokenStream.toList_of_next hne
        obtain ⟨hle, tests, hlater, hgains⟩ := sound_next hs hne (htaken _ hwanted) hrun
        exact ⟨hle, tests, .inl ⟨_, _, htoList, hwanted, hlater⟩, hgains⟩
    | false =>
        obtain ⟨tokens, htoList, hrun'⟩ := hback hwanted
        rw [hrun'] at hrun
        obtain ⟨hle, tests, hother, hgains⟩ := hg.sound (s := { s with tokens })
          (by rwa [htoList]) hrun
        rw [next_fst_eq_upcoming] at hwanted
        dsimp only at hle hother
        rw [htoList] at hle hother
        exact ⟨hle, tests, .inr ⟨hwanted, hother⟩, hgains.of_tokens⟩
  · obtain ⟨token, middle, hbefore, hwanted, hlater⟩ | ⟨hwanted, hother⟩ := hform
    · exact complete_next hs hbefore (htaken token hwanted) hlater
    · rw [← next_fst_eq_upcoming] at hwanted
      obtain ⟨tokens, htoList, hrun⟩ := hback hwanted
      rw [← htoList] at hs hother
      obtain ⟨a, s', hrun', hvalue, hrest, hgains⟩ := hg.complete (s := { s with tokens }) hs hother
      exact ⟨a, s', hrun.trans hrun', hvalue, hrest, hgains.of_tokens⟩

/-! ## Loops -/

theorem many {item : Reader (Option α)} {view : α → γ} {form : Form (Option γ)}
    (htakes : ∀ left, Agree left ifSome item item)
    (hitem : Accepts bound item (Option.map view) form) :
    Accepts bound (many item) (List.map view) (Repeated form) := by
  refine ⟨fun {s s' values} hs hrun => ?_, fun {s rest values tests} hs hform => ?_⟩
  · induction hleft : s.tokens.remaining using Nat.strongRecOn generalizing s values with
    | _ n ih =>
        subst hleft
        cases hfirst : item s with
        | error e after =>
            rw [many_run_error hfirst] at hrun
            cases hrun
        | ok found after =>
            obtain ⟨hle, tests, hform, hgains⟩ := hitem.sound hs hfirst
            cases found with
            | none =>
                rw [many_run_none hfirst] at hrun
                cases hrun
                exact ⟨hle, tests, .done hform, hgains⟩
            | some first =>
                have hlt : after.tokens.remaining < s.tokens.remaining := by
                  have := (htakes _ s (Int.le_refl _)).2 _ _ hfirst
                  simp only [ifSome] at this
                  omega
                rw [many_run_some (htakes _) hfirst] at hrun
                cases hothers : Reader.many item after with
                | error e final =>
                    rw [hothers] at hrun
                    cases hrun
                | ok others final =>
                    rw [hothers] at hrun
                    cases hrun
                    obtain ⟨hle', tests', hform', hgains'⟩ := ih _ hlt (by omega) hothers rfl
                    exact ⟨by omega, _, .more hform hform', hgains.trans hgains'⟩
  · generalize hbefore : s.tokens.toList = before at hform
    induction hform generalizing s with
    | done hnone =>
        subst hbefore
        obtain ⟨found, s', hrun, hview, hrest, hgains⟩ := hitem.complete hs hnone
        obtain rfl : found = none := Option.map_eq_none_iff.1 hview
        exact ⟨[], s', many_run_none hrun, rfl, hrest, hgains⟩
    | more hfirst hothers ih =>
        subst hbefore
        obtain ⟨found, s', hrun, hview, hmiddle, hgains⟩ := hitem.complete hs hfirst
        obtain ⟨first, rfl, rfl⟩ := Option.map_eq_some_iff.1 hview
        have hle := (hitem.sound hs hrun).1
        obtain ⟨others, s'', hrun', rfl, hrest, hgains'⟩ := ih (by omega) hmiddle
        refine ⟨first :: others, s'', ?_, rfl, hrest, hgains.trans hgains'⟩
        rw [many_run_some (htakes _) hrun, hrun']

end Accepts

end Reader

end ClassSelection
