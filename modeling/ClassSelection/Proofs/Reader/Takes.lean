import ClassSelection.Proofs.Reader.Recursion

/-!
# What a reader takes

`Runs` is about a reader on tokens that are known.  Its two outcomes of use are
`Takes`, a value as wanted after which certain tokens are left, and `Never`, an
error or a value that is not the wanted one.  Lines, registered variables and
anomalies are left open.
-/

namespace ClassSelection

/-- The tokens that a reading has before it, and the kind on the PROC statement behind it. -/
structure Reading.At (kind : Option RoutineKind) (tokens : List Token) (s : Reading) : Prop where
  toList : s.tokens.toList = tokens
  kind : s.kind = kind
  endRepeats : s.tokens.EndRepeats

namespace Reader

variable {α β : Type} {kind : Option RoutineKind} {before middle after rest : List Token}

def Runs (kind : Option RoutineKind) (x : Reader α) (before : List Token)
    (outcome : EStateM.Result Error Reading α → Prop) : Prop :=
  ∀ s, s.At kind before → outcome (x s)

abbrev Takes (kind : Option RoutineKind) (x : Reader α) (before after : List Token)
    (wanted : α → Prop) : Prop :=
  Runs kind x before fun result => ∃ a s', result = .ok a s' ∧ wanted a ∧ s'.At kind after

/-- The reader fails, or its value is not the wanted one. -/
abbrev Never (kind : Option RoutineKind) (x : Reader α) (before : List Token)
    (wanted : α → Prop) : Prop :=
  Runs kind x before fun result => ∀ a s', result = .ok a s' → ¬wanted a

/-! ## Sequences -/

section

variable {x : Reader α} {f : α → Reader β} {wanted : α → Prop} {wanted' : β → Prop}
  {outcome : EStateM.Result Error Reading β → Prop}

theorem Takes.mono {wanted' : α → Prop} (h : Takes kind x before after wanted)
    (hwanted : ∀ a, wanted a → wanted' a) : Takes kind x before after wanted' := by
  intro s hs
  obtain ⟨a, s', hrun, ha, hs'⟩ := h s hs
  exact ⟨a, s', hrun, hwanted a ha, hs'⟩

theorem Takes.bind (hx : Takes kind x before middle wanted)
    (hf : ∀ a, wanted a → Runs kind (f a) middle outcome) : Runs kind (x >>= f) before outcome := by
  intro s hs
  obtain ⟨a, s', hrun, ha, hs'⟩ := hx s hs
  rw [bind_run, hrun]
  exact hf a ha s' hs'

theorem Takes.pure {a : α} {wanted : α → Prop} (h : wanted a) :
    Takes kind (pure a) before before wanted :=
  fun s hs => ⟨a, s, rfl, h, hs⟩

theorem Takes.map {g : α → β} (hx : Takes kind x before after wanted)
    (hg : ∀ a, wanted a → wanted' (g a)) : Takes kind (g <$> x) before after wanted' :=
  hx.bind fun a ha => Takes.pure (hg a ha)

theorem Takes.never {wanted' : α → Prop} (h : Takes kind x before after wanted)
    (hne : ∀ a, wanted a → ¬wanted' a) : Never kind x before wanted' := by
  intro s hs a s' hrun
  obtain ⟨b, s'', hrun', hb, -⟩ := h s hs
  rw [hrun'] at hrun
  cases hrun
  exact hne _ hb

theorem Never.mono {wanted' : α → Prop} (h : Never kind x before wanted)
    (hwanted : ∀ a, wanted' a → wanted a) : Never kind x before wanted' :=
  fun s hs a s' hrun ha => h s hs a s' hrun (hwanted a ha)

/-- A wrong value is not put right by what follows, if the value can be told from the result. -/
theorem Never.bind (hx : Never kind x before wanted)
    (hf : ∀ a s b s', f a s = .ok b s' → wanted' b → wanted a) :
    Never kind (x >>= f) before wanted' := by
  intro s hs b s' hrun hb
  obtain ⟨a, s'', hx', hf'⟩ := bind_eq_ok.1 hrun
  exact hx s hs a s'' hx' (hf a s'' b s' hf' hb)

theorem Never.map {g : α → β} (hx : Never kind x before wanted)
    (hg : ∀ a, wanted' (g a) → wanted a) : Never kind (g <$> x) before wanted' := by
  refine Never.bind hx fun a s b s' hrun hb => ?_
  cases hrun
  exact hg a hb

end

/-! ## Single tokens -/

theorem takes_next {token : Token} : Takes kind next (token :: rest) rest (· = token) := by
  intro s hs
  obtain ⟨hnext, -, hrest⟩ := TokenStream.toList_eq_cons_iff.1 hs.toList
  exact ⟨_, _, next_run s, hnext, hrest, hs.kind, s.tokens.endRepeats_next⟩

def upcoming (tokens : List Token) : Token :=
  tokens.headD .endOfSource

@[simp] theorem upcoming_cons (token : Token) (rest : List Token) :
    upcoming (token :: rest) = token := rfl

@[simp] theorem upcoming_nil : upcoming [] = .endOfSource := rfl

theorem next_eq_upcoming {s : Reading} (h : s.At kind before) :
    s.tokens.next.1 = upcoming before := by
  cases before with
  | nil => exact TokenStream.toList_eq_nil_iff.1 h.toList
  | cons token rest => exact (TokenStream.toList_eq_cons_iff.1 h.toList).1

section

variable {outcome : EStateM.Result Error Reading α → Prop}

theorem runs_next {token : Token} {f : Token → Reader α} (h : Runs kind (f token) rest outcome) :
    Runs kind (next >>= f) (token :: rest) outcome :=
  takes_next.bind fun _ heq => heq ▸ h

theorem runs_next_end {f : Token → Reader α} (h : Runs kind (f .endOfSource) [] outcome) :
    Runs kind (next >>= f) [] outcome := by
  intro s hs
  have hnext := TokenStream.toList_eq_nil_iff.1 hs.toList
  rw [bind_run, next_run, hnext]
  exact h _ ⟨(hs.endRepeats hnext).2, hs.kind, s.tokens.endRepeats_next⟩

theorem exists_run_putBack {f : Token → Reader α} {g : Unit → Reader α} {s : Reading}
    (h : s.At kind before) (hf : f (upcoming before) = putBack (upcoming before) >>= g) :
    ∃ s', (next >>= f) s = g () s' ∧ s'.At kind before ∧
      s'.tokens.exhausted = s.tokens.next.2.exhausted := by
  have hnext := next_eq_upcoming h
  obtain ⟨tokens, htokens⟩ := s.tokens.exists_pushBack?_next (upcoming before)
  have hback := TokenStream.next_pushBack? htokens
  have htoList : tokens.toList = before := by
    cases before with
    | nil => exact TokenStream.toList_eq_nil_iff.2 (by rw [hback]; rfl)
    | cons token rest =>
        obtain ⟨-, hne, hrest⟩ := TokenStream.toList_eq_cons_iff.1 h.toList
        exact TokenStream.toList_eq_cons_iff.2 ⟨by rw [hback]; rfl, hne, by rw [hback]; exact hrest⟩
  have hrepeats : tokens.EndRepeats := by
    rw [← hnext] at htokens
    exact TokenStream.endRepeats_pushBack? h.endRepeats htokens
  refine ⟨{ s with tokens }, ?_, ⟨htoList, h.kind, hrepeats⟩,
    TokenStream.exhausted_pushBack? htokens⟩
  rw [bind_run, next_run, hnext]
  dsimp only
  rw [hf, bind_run, putBack]
  dsimp only
  rw [htokens]

theorem runs_putBack {f : Token → Reader α} {g : Unit → Reader α}
    (hf : f (upcoming before) = putBack (upcoming before) >>= g)
    (hg : Runs kind (g ()) before outcome) : Runs kind (next >>= f) before outcome := by
  intro s hs
  obtain ⟨s', hrun, hs', -⟩ := exists_run_putBack hs hf
  rw [hrun]
  exact hg s' hs'

theorem takes_accept {wanted : Token → Bool} {token : Token} (h : wanted token = true) :
    Takes kind (accept wanted) (token :: rest) rest (· = true) := by
  apply runs_next
  rw [if_pos h]
  exact Takes.pure rfl

theorem takes_accept_not {wanted : Token → Bool} (h : wanted (upcoming before) = false) :
    Takes kind (accept wanted) before before (· = false) := by
  apply runs_putBack
  · rw [if_neg (by simp [h])]
  · exact Takes.pure rfl

theorem runs_accept {wanted : Token → Bool} {token : Token} {f : Bool → Reader α}
    (h : wanted token = true) (hf : Runs kind (f true) rest outcome) :
    Runs kind (accept wanted >>= f) (token :: rest) outcome :=
  (takes_accept h).bind fun _ heq => heq ▸ hf

theorem runs_accept_not {wanted : Token → Bool} {f : Bool → Reader α}
    (h : wanted (upcoming before) = false) (hf : Runs kind (f false) before outcome) :
    Runs kind (accept wanted >>= f) before outcome :=
  (takes_accept_not h).bind fun _ heq => heq ▸ hf

theorem runs_expect {symbol : Char} {expected : String} {f : Unit → Reader α}
    (hf : Runs kind (f ()) rest outcome) :
    Runs kind (expect symbol expected >>= f) (.punct symbol :: rest) outcome := by
  have hsymbol : Takes kind (expect symbol expected) (.punct symbol :: rest) rest
      (fun _ => True) := by
    apply runs_next
    rw [if_pos (by simp)]
    exact Takes.pure trivial
  exact hsymbol.bind fun _ _ => hf

theorem runs_get {f : Reading → Reader α}
    (hf : ∀ s, s.At kind before → Runs kind (f s) before outcome) :
    Runs kind (MonadState.get >>= f) before outcome :=
  fun s hs => hf s hs s hs

theorem runs_line {f : Nat → Reader α} (hf : ∀ line, Runs kind (f line) before outcome) :
    Runs kind (line >>= f) before outcome :=
  fun s hs => hf s.tokens.line s hs

theorem runs_modify {f : Reading → Reading} {g : Unit → Reader α}
    (htokens : ∀ s, (f s).tokens = s.tokens) (hkind : ∀ s, (f s).kind = s.kind)
    (hg : Runs kind (g ()) before outcome) : Runs kind (modify f >>= g) before outcome := by
  intro s hs
  have hf : (f s).At kind before := by
    refine ⟨?_, ?_, ?_⟩
    · rw [htokens, hs.toList]
    · rw [hkind, hs.kind]
    · rw [htokens]
      exact hs.endRepeats
  exact hg (f s) hf

theorem runs_register {name : String} {g : Unit → Reader α}
    (hg : Runs kind (g ()) before outcome) : Runs kind (register name >>= g) before outcome :=
  runs_modify (fun _ => rfl) (fun _ => rfl) hg

end

/-! ## Loops -/

theorem takes_many_nil {item : Reader (Option α)} (h : Takes kind item before after (· = none)) :
    Takes kind (many item) before after (· = []) := by
  intro s hs
  obtain ⟨_, s', hrun, rfl, hs'⟩ := h s hs
  exact ⟨[], s', many_run_none hrun, rfl, hs'⟩

theorem takes_many_cons {γ : Type} {item : Reader (Option α)} {f : α → γ} {first : γ}
    {others : List γ} (hitem : ∀ bound, Agree bound ifSome item item)
    (hfirst : Takes kind item before middle (·.map f = some first))
    (hothers : Takes kind (many item) middle after (·.map f = others)) :
    Takes kind (many item) before after (·.map f = first :: others) := by
  intro s hs
  obtain ⟨a, s', hrun, ha, hs'⟩ := hfirst s hs
  obtain ⟨value, rfl, hvalue⟩ := Option.map_eq_some_iff.1 ha
  obtain ⟨values, s'', hrun', hvalues, hs''⟩ := hothers s' hs'
  refine ⟨value :: values, s'', ?_, by simp [hvalue, hvalues], hs''⟩
  rw [many_run_some (hitem _) hrun, hrun']

/-- The first item of a loop is what the item's reader takes. -/
theorem never_many_head {γ : Type} {item : Reader (Option α)} {f : α → γ} {first : γ}
    {others : List γ} (h : Never kind item before (·.map f = some first)) :
    Never kind (many item) before (·.map f = first :: others) := by
  intro s hs values s' hrun hvalues
  rw [many] at hrun
  cases hitem : item s with
  | error e after =>
      rw [hitem] at hrun
      cases hrun
  | ok a after =>
      cases a with
      | none =>
          rw [hitem] at hrun
          cases hrun
          cases hvalues
      | some value =>
          have hhead : values.head? = some value := by
            simp only [hitem] at hrun
            split at hrun
            · split at hrun <;> cases hrun
              rfl
            · cases hrun
              rfl
          have hfirst := congrArg List.head? hvalues
          rw [List.head?_map, hhead] at hfirst
          exact h s hs _ after hitem hfirst

theorem never_many_tail {γ : Type} {item : Reader (Option α)} {f : α → γ} {first : γ}
    {others : List γ} (hitem : ∀ bound, Agree bound ifSome item item)
    (hfirst : Takes kind item before middle (·.map f = some first))
    (hothers : Never kind (many item) middle (·.map f = others)) :
    Never kind (many item) before (·.map f = first :: others) := by
  intro s hs values s' hrun hvalues
  obtain ⟨a, s'', hrun', ha, hs''⟩ := hfirst s hs
  obtain ⟨value, rfl, -⟩ := Option.map_eq_some_iff.1 ha
  rw [many_run_some (hitem _) hrun'] at hrun
  split at hrun
  · rename_i hmany
    cases hrun
    exact hothers s'' hs'' _ _ hmany (List.cons.inj hvalues).2
  · cases hrun

end Reader

end ClassSelection
