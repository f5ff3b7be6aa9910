import ClassSelection.Proofs.Reader.Guard
import ClassSelection.Proofs.Reader.Termination
import ClassSelection.Proofs.Token.Position

/-!
# Where diagnostics arise

An anomaly or an error tells of text that ends with a certain token of the
source.  `Diagnoses` follows a reading by its position; the mark is behind the
last token that an anomaly tells of, so the anomalies come in the order of their
tokens, one for a token at most.
-/

namespace ClassSelection

/-- The anomaly tells of text that ends with the token at an index. -/
inductive Anomaly.Arises (source : String) : Anomaly → Nat → Prop
  | unknownKeyword {n : Nat}
      (hkeyword : ∀ keyword, Keyword.ofToken? (tokenAt source n) = some keyword →
        keyword = .when ∨ keyword = .otherwise)
      (hne : tokenAt source n ≠ .endOfSource) :
      Arises source ⟨lineAt source n, .unknownKeyword (tokenAt source n).text⟩ n
  | swappedQualified {first n : Nat} {written : WrittenTest} {kind : AnomalyKind}
      (hpair : Grammar.Pair Present ((Token.lex source.toList).drop first)
        ((Token.lex source.toList).drop (n + 1)) written)
      (hkind : written.anomaly? = some kind) (hclosed : tokenAt source n = .punct ')') :
      Arises source ⟨lineAt source n, kind⟩ n
  /-- Behind a variable the next token has been looked at in search of a qualifier. -/
  | swappedPlain {first n : Nat} {written : WrittenTest} {kind : AnomalyKind}
      (hpair : Grammar.Pair Present ((Token.lex source.toList).drop first)
        ((Token.lex source.toList).drop (n + 1)) written)
      (hkind : written.anomaly? = some kind) (hvariable : (tokenAt source n).isVariable = true) :
      Arises source ⟨lineAt source (n + 1), kind⟩ n

inductive ExitStatement (source : String) (n : Nat) : Position → Prop
  | plain (hexit : tokenAt source n = .word "EXIT")
      (hnext : tokenAt source (n + 1) ≠ .word "CODE") : ExitStatement source n ⟨n + 1, true⟩
  | withCode (hexit : tokenAt source n = .word "EXIT")
      (hcode : tokenAt source (n + 1) = .word "CODE")
      (hopen : tokenAt source (n + 2) = .punct '(') (hne : tokenAt source (n + 3) ≠ .endOfSource)
      (hclose : tokenAt source (n + 4) = .punct ')') : ExitStatement source n ⟨n + 5, false⟩

/-- The error tells of text that ends with the token at an index, and ends the reading at the
position. -/
inductive Error.Arises (source : String) : Error → Nat → Position → Prop
  | missingToken {expected : String} {n : Nat} :
      Arises source (.missingToken expected (tokenAt source n).text (lineAt source n)) n
        ⟨n + 1, false⟩
  | invalidRoutine {n : Nat} :
      Arises source (.invalidRoutine (tokenAt source n).text (lineAt source n)) n ⟨n + 1, false⟩
  | invalidTarget {n : Nat} :
      Arises source (.invalidTarget (tokenAt source n).text (lineAt source n)) n ⟨n + 1, false⟩
  | targetMismatch {routine : String} {n : Nat} :
      Arises source (.targetMismatch (tokenAt source n).text routine (lineAt source n)) n
        ⟨n + 1, false⟩
  | invalidSelect {n : Nat} :
      Arises source (.invalidSelect (tokenAt source n).text (lineAt source n)) n ⟨n + 1, false⟩
  | invalidComparison {left comparator : String} {n : Nat} :
      Arises source
        (.invalidComparison left comparator (tokenAt source n).text (lineAt source n)) n
        ⟨n + 1, false⟩
  | invalidComparator {n : Nat} (hopening : tokenAt source n ∉ Grammar.openingSymbols) :
      Arises source (.invalidComparator (tokenAt source n).text (lineAt source n)) n ⟨n + 1, false⟩
  | joinedComparator {n : Nat} (hfirst : tokenAt source n ∈ Grammar.openingSymbols)
      (hsecond : tokenAt source (n + 1) ∈ Grammar.closingSymbols) :
      Arises source
        (.invalidComparator ((tokenAt source n).text ++ (tokenAt source (n + 1)).text)
          (lineAt source (n + 1))) (n + 1) ⟨n + 2, false⟩
  /-- Behind a symbol that can begin a comparator the next token has been looked at. -/
  | loneComparator {n : Nat} (hfirst : tokenAt source n ∈ Grammar.openingSymbols)
      (hnext : tokenAt source (n + 1) ∉ Grammar.closingSymbols) :
      Arises source (.invalidComparator (tokenAt source n).text (lineAt source (n + 1))) n
        ⟨n + 1, true⟩
  | exitWithoutRule {n : Nat} {position : Position} (h : ExitStatement source n position) :
      Arises source (.exitWithoutRule (lineAt source n)) n position

inductive Noted (source : String) : Nat → List Anomaly → Prop
  | nil : Noted source 0 []
  | snoc {mark last : Nat} {anomalies : List Anomaly} {anomaly : Anomaly}
      (h : Noted source mark anomalies) (hlast : mark ≤ last)
      (harises : anomaly.Arises source last) : Noted source (last + 1) (anomalies ++ [anomaly])

/-- The reading has come to the position, with its anomalies before the mark. -/
structure Reading.Stands (source : String) (mark : Nat) (position : Position) (s : Reading) :
    Prop where
  tokens : s.tokens = position.stream source
  noted : Noted source mark s.anomalies

theorem Reading.stands_ofSource (source : String) :
    (Reading.ofSource source).Stands source 0 ⟨0, false⟩ :=
  ⟨rfl, .nil⟩

namespace Reader

variable {α β : Type} {source : String} {mark n : Nat} {position : Position}

/-- Wherever the reader ends, all anomalies arise in their order; it ends as wanted or with an error
that arises there. -/
def Diagnoses (source : String) (mark : Nat) (position : Position) (x : Reader α)
    (wanted : Nat → Position → α → Prop) : Prop :=
  ∀ s, s.Stands source mark position →
    (∀ a s', x s = .ok a s' →
      ∃ mark' position', s'.Stands source mark' position' ∧ wanted mark' position' a) ∧
    ∀ e s', x s = .error e s' →
      ∃ last mark' position', e.Arises source last position' ∧ s'.Stands source mark' position'

abbrev Behind : Nat → Position → α → Prop :=
  fun mark position _ => mark ≤ position.count

def Reports (source : String) (x : Reader α) : Prop :=
  ∀ mark position, mark ≤ position.count → Diagnoses source mark position x Behind

/-! ## Sequences -/

namespace Diagnoses

variable {wanted : Nat → Position → α → Prop} {wanted' : Nat → Position → β → Prop} {x : Reader α}

theorem mono {wanted' : Nat → Position → α → Prop} (h : Diagnoses source mark position x wanted)
    (hwanted : ∀ mark position a, wanted mark position a → wanted' mark position a) :
    Diagnoses source mark position x wanted' := by
  intro s hs
  obtain ⟨hok, herror⟩ := h s hs
  refine ⟨fun a s' hrun => ?_, herror⟩
  obtain ⟨mark', position', hs', ha⟩ := hok a s' hrun
  exact ⟨mark', position', hs', hwanted _ _ _ ha⟩

theorem bind {f : α → Reader β} (hx : Diagnoses source mark position x wanted)
    (hf : ∀ mark position a, wanted mark position a →
      Diagnoses source mark position (f a) wanted') :
    Diagnoses source mark position (x >>= f) wanted' := by
  intro s hs
  obtain ⟨hok, herror⟩ := hx s hs
  rw [bind_run]
  cases hrun : x s with
  | error e s' =>
      refine ⟨(fun _ _ h => by cases h), fun _ _ h => ?_⟩
      cases h
      exact herror e s' hrun
  | ok a s' =>
      obtain ⟨mark', position', hs', ha⟩ := hok a s' hrun
      exact hf mark' position' a ha s' hs'

theorem pure {a : α} (h : wanted mark position a) :
    Diagnoses source mark position (pure a) wanted := by
  intro s hs
  refine ⟨fun b s' hrun => ?_, fun _ _ hrun => by cases hrun⟩
  cases hrun
  exact ⟨mark, position, hs, h⟩

theorem throw {e : Error} {last : Nat} (h : e.Arises source last position) :
    Diagnoses source mark position (throw e : Reader α) wanted := by
  intro s hs
  refine ⟨(fun _ _ hrun => by cases hrun), fun _ _ hrun => ?_⟩
  cases hrun
  exact ⟨last, mark, position, h, hs⟩

/-- What would come after a failure does not matter. -/
theorem stop {f : α → Reader β} (hx : Diagnoses source mark position x fun _ _ _ => False) :
    Diagnoses source mark position (x >>= f) wanted' :=
  hx.bind fun _ _ _ h => h.elim

theorem get {f : Reading → Reader α} (h : ∀ s, Diagnoses source mark position (f s) wanted) :
    Diagnoses source mark position (MonadState.get >>= f) wanted :=
  fun s hs => h s s hs

theorem modify {f : Reading → Reading} {g : Unit → Reader α}
    (htokens : ∀ s, (f s).tokens = s.tokens)
    (hanomalies : ∀ s, (f s).anomalies = s.anomalies)
    (h : Diagnoses source mark position (g ()) wanted) :
    Diagnoses source mark position (modify f >>= g) wanted := by
  intro s hs
  refine h (f s) ⟨?_, ?_⟩
  · rw [htokens]
    exact hs.tokens
  · rw [hanomalies]
    exact hs.noted

theorem line {f : Nat → Reader α}
    (h : Diagnoses source mark position (f (position.stream source).line) wanted) :
    Diagnoses source mark position (Reader.line >>= f) wanted := by
  intro s hs
  have hrun : (Reader.line >>= f) s = f (position.stream source).line s := by
    rw [← hs.tokens]
    rfl
  rw [hrun]
  exact h s hs

/-- Where a token has just been taken, the line is its own. -/
theorem line_taken {f : Nat → Reader α}
    (h : Diagnoses source mark ⟨n + 1, false⟩ (f (lineAt source n)) wanted) :
    Diagnoses source mark ⟨n + 1, false⟩ (Reader.line >>= f) wanted := by
  refine line ?_
  rw [Position.line_stream_taken]
  exact h

theorem missing {expected : String} :
    Diagnoses source mark ⟨n + 1, false⟩ (missing expected (tokenAt source n) : Reader α) wanted :=
  line_taken (throw .missingToken)

/-! ## Tokens -/

theorem next {f : Token → Reader α}
    (h : Diagnoses source mark ⟨position.count + 1, false⟩ (f (tokenAt source position.count))
      wanted) :
    Diagnoses source mark position (next >>= f) wanted := by
  intro s hs
  have hnext := position.next_stream source
  rw [← hs.tokens] at hnext
  rw [bind_run, next_run, hnext]
  exact h _ ⟨rfl, hs.noted⟩

theorem putBack {g : Unit → Reader α} (h : Diagnoses source mark ⟨n, true⟩ (g ()) wanted) :
    Diagnoses source mark ⟨n + 1, false⟩ (putBack (tokenAt source n) >>= g) wanted := by
  intro s hs
  have hpush : s.tokens.pushBack? (tokenAt source n) =
      some (Position.stream source ⟨n, true⟩) := by
    rw [hs.tokens]
    exact Position.pushBack?_after source n
  have hrun : Reader.putBack (tokenAt source n) s =
      .ok () { s with tokens := Position.stream source ⟨n, true⟩ } := by
    simp only [Reader.putBack, hpush]
  rw [bind_run, hrun]
  exact h _ ⟨rfl, hs.noted⟩

theorem accept {wanted : Token → Bool} {f : Bool → Reader α} {wanted' : Nat → Position → α → Prop}
    (htaken : wanted (tokenAt source position.count) = true →
      Diagnoses source mark ⟨position.count + 1, false⟩ (f true) wanted')
    (hleft : wanted (tokenAt source position.count) = false →
      Diagnoses source mark ⟨position.count, true⟩ (f false) wanted') :
    Diagnoses source mark position (accept wanted >>= f) wanted' := by
  rw [Reader.accept, bind_assoc]
  refine next ?_
  cases h : wanted (tokenAt source position.count) with
  | true =>
      rw [if_pos rfl, pure_bind]
      exact htaken h
  | false =>
      rw [if_neg (by simp), bind_assoc]
      refine putBack ?_
      rw [pure_bind]
      exact hleft h

theorem expect {symbol : Char} {expected : String} {f : Unit → Reader α}
    (h : tokenAt source position.count = .punct symbol →
      Diagnoses source mark ⟨position.count + 1, false⟩ (f ()) wanted) :
    Diagnoses source mark position (expect symbol expected >>= f) wanted := by
  rw [Reader.expect, bind_assoc]
  refine next ?_
  by_cases htoken : tokenAt source position.count = .punct symbol
  · rw [if_pos (by simp [htoken]), pure_bind]
    exact h htoken
  · rw [if_neg (by simp [htoken])]
    exact missing.stop

/-! ## Anomalies -/

theorem report {kind : AnomalyKind} {last : Nat} {f : Unit → Reader α} (hlast : mark ≤ last)
    (harises : (⟨(position.stream source).line, kind⟩ : Anomaly).Arises source last)
    (h : Diagnoses source (last + 1) position (f ()) wanted) :
    Diagnoses source mark position (report kind >>= f) wanted := by
  intro s hs
  rw [← hs.tokens] at harises
  exact h { s with anomalies := s.anomalies ++ [⟨s.tokens.line, kind⟩] }
    ⟨hs.tokens, .snoc hs.noted hlast harises⟩

theorem report_taken {kind : AnomalyKind} {f : Unit → Reader α} (hmark : mark ≤ n)
    (harises : (⟨lineAt source n, kind⟩ : Anomaly).Arises source n)
    (h : Diagnoses source (n + 1) ⟨n + 1, false⟩ (f ()) wanted) :
    Diagnoses source mark ⟨n + 1, false⟩ (Reader.report kind >>= f) wanted := by
  rw [← Position.line_stream_taken] at harises
  exact report hmark harises h

/-- What the tokens of a reader are, where it is known to accept a form only. -/
theorem form {phrase : List Token → List Token → α → Prop}
    (h : Diagnoses source mark position x wanted)
    (haccepts : ∀ bound, Accepts bound x id (Quiet phrase)) :
    Diagnoses source mark position x fun mark' position' a => wanted mark' position' a ∧
      phrase ((Token.lex source.toList).drop position.count)
        ((Token.lex source.toList).drop position'.count) a := by
  intro s hs
  obtain ⟨hok, herror⟩ := h s hs
  refine ⟨fun a s' hrun => ?_, herror⟩
  obtain ⟨mark', position', hs', ha⟩ := hok a s' hrun
  obtain ⟨-, -, ⟨hphrase, -⟩, -⟩ := (haccepts _).sound (Nat.lt_succ_self _) hrun
  rw [hs.tokens, hs'.tokens, Position.toList_stream, Position.toList_stream] at hphrase
  exact ⟨mark', position', hs', ha, hphrase⟩

end Diagnoses

namespace Reports

variable {x : Reader α}

theorem pure (a : α) : Reports source (pure a) :=
  fun _ _ hmark => .pure hmark

theorem bind {f : α → Reader β} (hx : Reports source x) (hf : ∀ a, Reports source (f a)) :
    Reports source (x >>= f) :=
  fun mark position hmark =>
    (hx mark position hmark).bind fun mark' position' a => hf a mark' position'

theorem get : Reports source (MonadState.get : Reader Reading) := by
  intro mark position hmark s hs
  refine ⟨fun a s' hrun => ?_, fun _ _ hrun => by cases hrun⟩
  cases hrun
  exact ⟨mark, position, hs, hmark⟩

theorem line : Reports source line :=
  get.bind fun _ => pure _

theorem modify {f : Reading → Reading} (htokens : ∀ s, (f s).tokens = s.tokens)
    (hanomalies : ∀ s, (f s).anomalies = s.anomalies) :
    Reports source (modify f : Reader Unit) := by
  intro mark position hmark
  have h : Diagnoses source mark position _ Behind :=
    .modify (g := Pure.pure) htokens hanomalies (.pure hmark)
  rwa [bind_pure] at h

theorem register (name : String) : Reports source (register name) :=
  modify (fun _ => rfl) fun _ => rfl

theorem next {f : Token → Reader α}
    (h : ∀ mark n, mark ≤ n → Diagnoses source mark ⟨n + 1, false⟩ (f (tokenAt source n)) Behind) :
    Reports source (next >>= f) :=
  fun mark position hmark => .next (h mark position.count hmark)

theorem taken (h : Reports source x) (hmark : mark ≤ n) :
    Diagnoses source mark ⟨n + 1, false⟩ x Behind :=
  h mark ⟨n + 1, false⟩ (Nat.le_succ_of_le hmark)

theorem left {g : Unit → Reader α} (h : Reports source (g ())) (hmark : mark ≤ n) :
    Diagnoses source mark ⟨n + 1, false⟩ (Reader.putBack (tokenAt source n) >>= g) Behind :=
  .putBack (h mark ⟨n, true⟩ hmark)

theorem accept (wanted : Token → Bool) : Reports source (accept wanted) := by
  refine next fun mark n hmark => ?_
  split
  · exact (pure true).taken hmark
  · exact left (pure false) hmark

theorem expect (symbol : Char) (expected : String) : Reports source (expect symbol expected) := by
  refine next fun mark n hmark => ?_
  split
  · exact (pure ()).taken hmark
  · exact .missing

theorem many {item : Reader (Option α)} (h : Reports source item) : Reports source (many item) := by
  intro mark position hmark s
  induction hleft : s.tokens.remaining using Nat.strongRecOn generalizing s mark position with
  | _ n ih =>
      subst hleft
      intro hs
      rw [many_run_eq]
      refine (h mark position hmark).bind (fun mark' position' found hmark' => ?_) s hs
      cases found with
      | none => exact .pure hmark'
      | some first =>
          intro s' hs'
          dsimp only [again]
          split
          · rename_i hlt
            obtain ⟨hok, herror⟩ := ih _ hlt mark' position' hmark' s' rfl hs'
            rw [bind_run]
            cases hothers : Reader.many item s' with
            | error e final =>
                refine ⟨(fun _ _ h => by cases h), fun _ _ h => ?_⟩
                cases h
                exact herror e final hothers
            | ok others final =>
                obtain ⟨mark'', position'', hfinal, hmark''⟩ := hok others final hothers
                exact pure (first :: others) mark'' position'' hmark'' final hfinal
          · exact pure [first] mark' position' hmark' s' hs'

/-- A recursion reports as its levels do. -/
theorem of_levels {level : Reader α → Reader α} {reader below : Reader α}
    (hends : ∀ s, EndsAt level reader s) (hbelow : Reports source below)
    (h : ∀ nested, Reports source nested → Reports source (level nested)) :
    Reports source reader := by
  have hlevels (depth : Nat) : Reports source (level^[depth] below) := by
    induction depth with
    | zero => exact hbelow
    | succ depth ih =>
        rw [Function.iterate_succ_apply']
        exact h _ ih
  intro mark position hmark s hs
  rw [← hends s _ (Nat.le_refl _) below]
  exact hlevels _ mark position hmark s hs

end Reports

end Reader

end ClassSelection
