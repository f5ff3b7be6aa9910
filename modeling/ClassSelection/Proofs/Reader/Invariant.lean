import ClassSelection.Proofs.Condition.Columns
import ClassSelection.Proofs.Condition.WellFormed
import ClassSelection.Proofs.Reader.Progress
import ClassSelection.Proofs.Token.Place

/-!
# What readers keep

A reading is sound if its stream has come somewhere in the source and its
registry repeats nothing.  `Keeps` says of a reader that it goes from sound
readings to sound readings, forgets no variable, and fails only with a fault in
the source; `KeepsAfter` says so where a token has just been read, the only
place at which a token can be put back.
-/

namespace ClassSelection

/-- The error is a fault at a line of the source.  It tells neither of a token that was put back
while another one was waiting nor of a scope that was closed out of turn. -/
structure Error.IsFault (source : String) (error : Error) : Prop where
  line : ∃ line, error.line? = some line ∧ 1 ≤ line ∧ line ≤ 1 + source.toList.count '\n'
  ne_tokenPutBackTwice : ∀ line, error ≠ .tokenPutBackTwice line
  ne_scopeMismatch : ∀ construct line, error ≠ .scopeMismatch construct line

structure Reading.Sound (source : String) (s : Reading) : Prop where
  tokens : s.tokens.ReadFrom source
  nodup : s.registry.names.Nodup

structure Reading.JustRead (source : String) (token : Token) (s : Reading) : Prop where
  tokens : s.tokens.JustRead source token
  nodup : s.registry.names.Nodup

theorem Reading.sound_ofSource (source : String) : (Reading.ofSource source).Sound source :=
  ⟨TokenStream.readFrom_ofSource source, List.nodup_nil⟩

theorem Reading.JustRead.sound {source : String} {token : Token} {s : Reading}
    (h : s.JustRead source token) : s.Sound source :=
  ⟨h.tokens.readFrom, h.nodup⟩

namespace Reader

variable {α β : Type} {source : String} {known : List String}

/-- From a reading as wanted, in which the known variables are registered, the reader comes to a
sound one and to a good value, or to a fault. -/
def Yields (source : String) (start : Reading → Prop) (known : List String) (x : Reader α)
    (good : List String → α → Prop) : Prop :=
  ∀ s, start s → known ⊆ s.registry.names →
    (∀ a s', x s = .ok a s' → s'.Sound source ∧ s.registry.names ⊆ s'.registry.names ∧
      good s'.registry.names a) ∧
    ∀ e s', x s = .error e s' → e.IsFault source

abbrev Keeps (source : String) (known : List String) (x : Reader α)
    (good : List String → α → Prop) : Prop :=
  Yields source (Reading.Sound source) known x good

abbrev KeepsAfter (source : String) (token : Token) (known : List String) (x : Reader α)
    (good : List String → α → Prop) : Prop :=
  Yields source (Reading.JustRead source token) known x good

abbrev Any : List String → α → Prop :=
  fun _ _ => True

/-! ## Sequences -/

namespace Yields

variable {start : Reading → Prop} {good : List String → α → Prop} {good' : List String → β → Prop}
  {x : Reader α}

theorem weaken {known' : List String} (h : Yields source start known x good)
    (hknown : known ⊆ known') : Yields source start known' x good :=
  fun s hs hnames => h s hs (List.Subset.trans hknown hnames)

theorem mono {good' : List String → α → Prop} (h : Yields source start known x good)
    (hgood : ∀ names a, known ⊆ names → good names a → good' names a) :
    Yields source start known x good' := by
  intro s hs hnames
  obtain ⟨hok, herror⟩ := h s hs hnames
  refine ⟨fun a s' hrun => ?_, herror⟩
  obtain ⟨hs', hgrown, ha⟩ := hok a s' hrun
  exact ⟨hs', hgrown, hgood _ a (List.Subset.trans hnames hgrown) ha⟩

theorem bind {f : α → Reader β} (hx : Yields source start known x good)
    (hf : ∀ a names, known ⊆ names → good names a → Keeps source names (f a) good') :
    Yields source start known (x >>= f) good' := by
  intro s hs hnames
  obtain ⟨hok, herror⟩ := hx s hs hnames
  rw [bind_run]
  cases hrun : x s with
  | error e s' =>
      refine ⟨(fun _ _ h => by cases h), fun _ _ h => ?_⟩
      cases h
      exact herror e s' hrun
  | ok a s' =>
      obtain ⟨hs', hgrown, ha⟩ := hok a s' hrun
      obtain ⟨hok', herror'⟩ :=
        hf a _ (List.Subset.trans hnames hgrown) ha s' hs' (List.Subset.refl _)
      refine ⟨fun b s'' hrun' => ?_, herror'⟩
      obtain ⟨hs'', hgrown', hb⟩ := hok' b s'' hrun'
      exact ⟨hs'', List.Subset.trans hgrown hgrown', hb⟩

theorem andThen {f : α → Reader β} (hx : Yields source start known x good)
    (hf : ∀ a, Keeps source known (f a) good') : Yields source start known (x >>= f) good' :=
  hx.bind fun a _ hknown _ => (hf a).weaken hknown

/-- What would come after a failure does not matter. -/
theorem stop {f : α → Reader β} (hx : Yields source start known x fun _ _ => False) :
    Yields source start known (x >>= f) good' :=
  hx.bind fun _ _ _ h => h.elim

theorem after {token : Token} (h : Keeps source known x good) :
    KeepsAfter source token known x good :=
  fun s hs hnames => h s hs.sound hnames

end Yields

section

variable {good : List String → α → Prop}

theorem keeps_pure {a : α} (h : ∀ names, known ⊆ names → good names a) :
    Keeps source known (pure a) good := by
  intro s hs hnames
  refine ⟨fun b s' hrun => ?_, fun _ _ hrun => by cases hrun⟩
  cases hrun
  exact ⟨hs, List.Subset.refl _, h _ hnames⟩

theorem keeps_get : Keeps source known (MonadState.get : Reader Reading) Any := by
  intro s hs _
  refine ⟨fun a s' hrun => ?_, fun _ _ hrun => by cases hrun⟩
  cases hrun
  exact ⟨hs, List.Subset.refl _, trivial⟩

theorem keeps_modify {f : Reading → Reading} (htokens : ∀ s, (f s).tokens = s.tokens)
    (hregistry : ∀ s, (f s).registry = s.registry) :
    Keeps source known (modify f : Reader Unit) Any := by
  intro s hs _
  refine ⟨fun a s' hrun => ?_, fun _ _ hrun => by cases hrun⟩
  cases hrun
  refine ⟨⟨?_, ?_⟩, ?_, trivial⟩
  · rw [htokens]
    exact hs.tokens
  · rw [hregistry]
    exact hs.nodup
  · rw [hregistry]
    exact List.Subset.refl _

/-! ## Lines and faults -/

theorem keeps_line :
    Keeps source known line fun _ line => 1 ≤ line ∧ line ≤ 1 + source.toList.count '\n' := by
  intro s hs _
  refine ⟨fun a s' hrun => ?_, fun _ _ hrun => by cases hrun⟩
  cases hrun
  exact ⟨hs, List.Subset.refl _, hs.tokens.line_pos, hs.tokens.line_le⟩

theorem keeps_throw {e : Error} (h : e.IsFault source) :
    Keeps source known (throw e : Reader α) good := by
  intro s _ _
  refine ⟨(fun _ _ h => by cases h), fun _ _ hrun => ?_⟩
  cases hrun
  exact h

section

variable {error : Nat → Error} (hline : ∀ line, (error line).line? = some line)
  (hback : ∀ line line', error line ≠ .tokenPutBackTwice line')
  (hscope : ∀ line construct line', error line ≠ .scopeMismatch construct line')

include hline hback hscope

theorem keeps_throw_line : Keeps source known (do throw (error (← line)) : Reader α) good :=
  keeps_line.bind fun line _ _ hbounds =>
    keeps_throw ⟨⟨line, hline line, hbounds⟩, hback line, hscope line⟩

theorem keeps_throw_line_bind {f : β → Reader α} :
    Keeps source known (line >>= fun line => throw (error line) >>= f) good :=
  keeps_line.bind fun line _ _ hbounds =>
    (keeps_throw ⟨⟨line, hline line, hbounds⟩, hback line, hscope line⟩).stop

end

theorem keeps_missing {expected : String} {found : Token} :
    Keeps source known (missing expected found : Reader α) good :=
  keeps_throw_line (fun _ => rfl) (by simp) (by simp)

/-! ## Tokens -/

theorem keeps_next {f : Token → Reader α}
    (h : ∀ token, (token ≠ .endOfSource → token.Canonical) →
      KeepsAfter source token known (f token) good) :
    Keeps source known (next >>= f) good := by
  intro s hs hnames
  rw [bind_run, next_run]
  exact h _ hs.tokens.next.canonical { s with tokens := s.tokens.next.2 }
    ⟨hs.tokens.next, hs.nodup⟩ hnames

theorem keepsAfter_putBack {token : Token} {g : Unit → Reader α}
    (h : Keeps source known (g ()) good) :
    KeepsAfter source token known (putBack token >>= g) good := by
  intro s hs hnames
  obtain ⟨tokens, hpush, htokens⟩ := hs.tokens.pushBack?
  have hrun : putBack token s = .ok () { s with tokens } := by
    simp only [putBack, hpush]
  rw [bind_run, hrun]
  exact h { s with tokens } ⟨htokens, hs.nodup⟩ hnames

end

theorem keeps_accept {wanted : Token → Bool} : Keeps source known (accept wanted) Any := by
  refine keeps_next fun token _ => ?_
  split
  · exact (keeps_pure fun _ _ => trivial).after
  · exact keepsAfter_putBack (keeps_pure fun _ _ => trivial)

theorem keeps_expect {symbol : Char} {expected : String} :
    Keeps source known (expect symbol expected) Any := by
  refine keeps_next fun token _ => ?_
  split
  · exact (keeps_pure fun _ _ => trivial).after
  · exact keeps_missing.after

theorem keeps_report {kind : AnomalyKind} : Keeps source known (report kind) Any :=
  keeps_line.andThen fun _ => keeps_modify (fun _ => rfl) fun _ => rfl

theorem keeps_register {name : String} :
    Keeps source known (register name) fun names _ => name ∈ names := by
  intro s hs _
  refine ⟨fun a s' hrun => ?_, fun _ _ hrun => by cases hrun⟩
  cases hrun
  refine ⟨⟨hs.tokens, ?_⟩, ?_, ?_⟩ <;> dsimp only <;> rw [Registry.names_add]
  · exact nodup_addNew hs.nodup name
  · exact fun other hother => mem_addNew.2 (.inl hother)
  · exact mem_addNew.2 (.inr rfl)

/-! ## Loops and recursion -/

theorem keeps_many {good : List String → α → Prop} {item : Reader (Option α)}
    (hgood : ∀ {names names' : List String} {a : α}, names ⊆ names' → good names a → good names' a)
    (h : Keeps source known item fun names found => ∀ a ∈ found, good names a) :
    Keeps source known (many item) fun names found => ∀ a ∈ found, good names a := by
  intro s
  induction hleft : s.tokens.remaining using Nat.strongRecOn generalizing s with
  | _ n ih =>
      subst hleft
      intro hs hnames
      obtain ⟨hok, herror⟩ := h s hs hnames
      rw [many]
      cases hrun : item s with
      | error e s' =>
          refine ⟨(fun _ _ h => by cases h), fun _ _ h => ?_⟩
          cases h
          exact herror e s' hrun
      | ok found s' =>
          obtain ⟨hs', hgrown, hfound⟩ := hok found s' hrun
          cases found with
          | none =>
              refine ⟨fun _ _ h => ?_, fun _ _ h => by cases h⟩
              cases h
              exact ⟨hs', hgrown, by simp⟩
          | some first =>
              have hfirst := hfound first rfl
              by_cases hlt : s'.tokens.remaining < s.tokens.remaining
              · simp only [if_pos hlt]
                obtain ⟨hok', herror'⟩ :=
                  ih _ hlt s' rfl hs' (List.Subset.trans hnames hgrown)
                cases hmany : many item s' with
                | error e final =>
                    refine ⟨(fun _ _ h => by cases h), fun _ _ h => ?_⟩
                    cases h
                    exact herror' e final hmany
                | ok others final =>
                    obtain ⟨hfinal, hgrown', hothers⟩ := hok' others final hmany
                    refine ⟨fun _ _ h => ?_, fun _ _ h => by cases h⟩
                    cases h
                    refine ⟨hfinal, List.Subset.trans hgrown hgrown', fun a ha => ?_⟩
                    rcases List.mem_cons.1 ha with rfl | ha
                    · exact hgood hgrown' hfirst
                    · exact hothers a ha
              · simp only [if_neg hlt]
                refine ⟨fun _ _ h => ?_, fun _ _ h => by cases h⟩
                cases h
                exact ⟨hs', hgrown, by simpa using hfirst⟩

theorem keeps_many_any {item : Reader (Option α)} (h : Keeps source known item Any) :
    Keeps source known (many item) Any := by
  have hitem : Keeps source known item fun names found => ∀ a ∈ found, Any names a :=
    h.mono fun _ _ _ _ _ _ => trivial
  exact (keeps_many (fun _ _ => trivial) hitem).mono fun _ _ _ _ => trivial

theorem keeps_nest {good : List String → α → Prop} {reader : Reader α → Reader α}
    {bottom : Reader α}
    (hbottom : Keeps source [] bottom good)
    (h : ∀ nested, Keeps source [] nested good → Keeps source [] (reader nested) good) :
    Keeps source [] (nest reader bottom) good := by
  intro s
  induction hleft : s.tokens.remaining using Nat.strongRecOn generalizing s with
  | _ n ih =>
      subst hleft
      have hinner : Keeps source [] (fun inner =>
          if inner.tokens.remaining < s.tokens.remaining then nest reader bottom inner
          else bottom inner) good := by
        intro inner
        by_cases hlt : inner.tokens.remaining < s.tokens.remaining
        · simp only [if_pos hlt]
          exact ih _ hlt inner rfl
        · simp only [if_neg hlt]
          exact hbottom inner
      rw [nest]
      exact h _ hinner s

end Reader

end ClassSelection
