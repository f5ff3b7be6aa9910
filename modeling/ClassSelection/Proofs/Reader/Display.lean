import ClassSelection.Proofs.Condition.Truth
import ClassSelection.Proofs.Reader.Guard
import ClassSelection.Proofs.Token.Layout
import ClassSelection.Table.Format

/-!
# Conditions read back from their text

A condition is displayed as its tests joined by AND, and a list of conditions can be
written with each one in parentheses, joined by OR.  Where names and values are texts
of tokens, that text is lexed piece by piece, whatever follows a piece apart from it,
and the tokens derive in the grammar of guards the conditions that were displayed.
-/

namespace ClassSelection

namespace Token

/-- A token that is read as itself, where it is written as it is displayed. -/
def Settled (token : Token) : Prop :=
  token.Canonical ∧ token.capitalized = token

instance (token : Token) : Decidable token.Settled :=
  inferInstanceAs (Decidable (_ ∧ _))

theorem Settled.ne_endOfSource {token : Token} (h : token.Settled) : token ≠ .endOfSource := by
  rintro rfl
  exact h.1

variable {rest : List Char}

theorem lex_settled {token : Token} (h : token.Settled) (hrest : Apart rest) :
    lex (token.text.toList ++ rest) = token :: lex rest := by
  rw [lex_spelling h.1 rfl hrest, h.2]

/-- A symbol is read whatever follows, if no comment can begin with it. -/
theorem lex_punct {symbol : Char} (h : (punct symbol).Canonical) (hslash : symbol ≠ '/')
    (rest : List Char) : lex (symbol :: rest) = punct symbol :: lex rest := by
  have hread : read 1 (symbol :: rest) = (punct symbol, ⟨1, rest⟩) := by
    refine read_eq (skipSeparators_eq_self ?_ ?_ 1) (scanToken_punct h rest) rfl
    · rintro c ⟨⟩
      exact h.1
    · rintro ⟨after, hopen⟩
      exact hslash (List.cons.inj hopen).1.symm
  rw [lex_eq, hread, if_neg Token.noConfusion]

theorem lex_blank (rest : List Char) : lex (' ' :: rest) = lex rest :=
  (passes_separator rfl rest).lex_eq

theorem apart_blank (rest : List Char) : Apart (' ' :: rest) := by
  rintro c ⟨⟩
  rfl

end Token

open Reader (upcoming Present)
open Token (Apart lex lex_settled lex_punct lex_blank apart_blank)

variable {rest : List Char} {style : ComparatorStyle}

/-! ## Names and values -/

/-- The text of a variable: a word with its `&`, and one token in parentheses or none. -/
inductive VariableText : String → Prop
  | plain {name : String} (hname : (Token.word name).Settled) (hvariable : isVariable name = true) :
      VariableText name
  | qualified {name : String} {qualifier : Token} (hname : (Token.word name).Settled)
      (hvariable : isVariable name = true) (hqualifier : qualifier.Settled) :
      VariableText (name ++ "(" ++ qualifier.text ++ ")")

inductive ValueText : String → Prop
  | word {text : String} (h : (Token.word text).Settled) : ValueText text
  | literal {text : String} (h : (Token.literal text).Settled) : ValueText (Token.literal text).text
  | named {text : String} (h : VariableText text) : ValueText text

theorem VariableText.isVariable {text : String} (h : VariableText text) :
    isVariable text = true := by
  cases h with
  | plain _ hvariable => exact hvariable
  | @qualified name qualifier _ hvariable _ =>
      have hhead : name.toList.head? = some '&' := by
        simpa [ClassSelection.isVariable] using hvariable
      simp [ClassSelection.isVariable, List.head?_append, hhead]

theorem apart_open (rest : List Char) : Apart ('(' :: rest) := by
  rintro c ⟨⟩
  rfl

theorem apart_close (rest : List Char) : Apart (')' :: rest) := by
  rintro c ⟨⟩
  rfl

theorem lex_open (rest : List Char) : lex ('(' :: rest) = .punct '(' :: lex rest :=
  lex_punct (by decide) (by decide) rest

theorem lex_close (rest : List Char) : lex (')' :: rest) = .punct ')' :: lex rest :=
  lex_punct (by decide) (by decide) rest

theorem VariableText.derives {text : String} (h : VariableText text) (hrest : Apart rest)
    (hnext : upcoming (lex rest) ≠ .punct '(') :
    Grammar.Variable Present (lex (text.toList ++ rest)) (lex rest) text := by
  cases h with
  | plain hname hvariable =>
      have hlex : lex (text.toList ++ rest) = .word text :: lex rest := lex_settled hname hrest
      rw [hlex]
      exact .plain hvariable hnext
  | @qualified name qualifier hname hvariable hqualifier =>
      have htext : (name ++ "(" ++ qualifier.text ++ ")").toList ++ rest =
          (Token.word name).text.toList ++ '(' :: (qualifier.text.toList ++ ')' :: rest) := by
        simp [Token.text]
      rw [htext, lex_settled hname (apart_open _), lex_open, lex_settled hqualifier (apart_close _),
        lex_close]
      exact .qualified hvariable hqualifier.ne_endOfSource

theorem ValueText.derives {text : String} (h : ValueText text) (hrest : Apart rest)
    (hnext : upcoming (lex rest) ≠ .punct '(') :
    Grammar.Operand Present (lex (text.toList ++ rest)) (lex rest) ⟨text, isVariable text⟩ := by
  have hconstant {token : Token} (htoken : token.Settled) (hvariable : token.isVariable = false) :
      Grammar.Operand Present (lex (token.text.toList ++ rest)) (lex rest) ⟨token.text, false⟩ := by
    rw [lex_settled htoken hrest]
    exact .constant hvariable htoken.ne_endOfSource
  have hnamed {text : String} (h : VariableText text) :
      Grammar.Operand Present (lex (text.toList ++ rest)) (lex rest) ⟨text, isVariable text⟩ := by
    rw [h.isVariable]
    exact .named (h.derives hrest hnext)
  cases h with
  | word htext =>
      cases hvariable : isVariable text with
      | true =>
          rw [← hvariable]
          exact hnamed (.plain htext hvariable)
      | false => exact hconstant htext hvariable
  | @literal body htext =>
      have hquote : isVariable (Token.literal body).text = false := by
        simp [isVariable, Token.text]
      rw [hquote]
      exact hconstant htext rfl
  | named htext => exact hnamed htext

theorem Grammar.Variable.isVariable_upcoming {before after : List Token} {name : String}
    (h : Grammar.Variable Present before after name) : (upcoming before).isVariable = true := by
  cases h with
  | plain hvariable => exact hvariable
  | qualified hvariable => exact hvariable

theorem VariableText.upcoming_ne_punct {text : String} (h : VariableText text) (hrest : Apart rest)
    (hnext : upcoming (lex rest) ≠ .punct '(') (symbol : Char) :
    upcoming (lex (text.toList ++ rest)) ≠ .punct symbol := by
  have hvariable := (h.derives hrest hnext).isVariable_upcoming
  intro hpunct
  rw [hpunct] at hvariable
  cases hvariable

theorem ValueText.upcoming_ne_punct {text : String} (h : ValueText text) (hrest : Apart rest)
    (hnext : upcoming (lex rest) ≠ .punct '(') (symbol : Char) :
    upcoming (lex (text.toList ++ rest)) ≠ .punct symbol := by
  cases h with
  | word htext =>
      have hlex : lex (text.toList ++ rest) = .word text :: lex rest := lex_settled htext hrest
      rw [hlex]
      exact Token.noConfusion
  | literal htext =>
      rw [lex_settled htext hrest]
      exact Token.noConfusion
  | named htext => exact htext.upcoming_ne_punct hrest hnext symbol

/-! ## Tests -/

def Test.spelled (style : ComparatorStyle) (test : Test) : String :=
  test.subject ++ " " ++ style.spell test.comparator ++ " " ++ test.value

def Test.written (test : Test) : WrittenTest :=
  ⟨⟨test.subject, true⟩, test.comparator, ⟨test.value, isVariable test.value⟩⟩

structure Test.Readable (test : Test) : Prop where
  subject : VariableText test.subject
  value : ValueText test.value

theorem sign_of_mnemonic (comparator : Comparator) :
    Grammar.Sign (lex (comparator.mnemonic.toList ++ ' ' :: rest)) (lex rest) comparator ∧
      upcoming (lex (comparator.mnemonic.toList ++ ' ' :: rest)) ≠ .punct '(' := by
  have hsettled : (Token.word comparator.mnemonic).Settled := by
    cases comparator <;> decide
  have hlex : lex (comparator.mnemonic.toList ++ ' ' :: rest) =
      .word comparator.mnemonic :: lex rest := by
    rw [← lex_blank rest]
    exact lex_settled hsettled (apart_blank rest)
  rw [hlex]
  refine ⟨.single (Comparator.ofSpelling?_mnemonic comparator) fun hopens => ?_, Token.noConfusion⟩
  simp [Grammar.openingSymbols] at hopens

theorem sign_of_symbol (comparator : Comparator)
    (hnext : ∀ symbol, upcoming (lex rest) ≠ .punct symbol) :
    Grammar.Sign (lex (comparator.symbol.toList ++ ' ' :: rest)) (lex rest) comparator ∧
      upcoming (lex (comparator.symbol.toList ++ ' ' :: rest)) ≠ .punct '(' := by
  have hclosing : upcoming (lex rest) ∉ Grammar.closingSymbols := by
    simp [Grammar.closingSymbols, hnext]
  have hsingle (symbol : Char) (h : (Token.punct symbol).Canonical) (hslash : symbol ≠ '/')
      (hparen : symbol ≠ '(')
      (hspelled : Comparator.ofSpelling? (Token.punct symbol).text = some comparator) :
      Grammar.Sign (lex (symbol :: ' ' :: rest)) (lex rest) comparator ∧
        upcoming (lex (symbol :: ' ' :: rest)) ≠ .punct '(' := by
    rw [lex_punct h hslash, lex_blank]
    exact ⟨.single hspelled fun _ => hclosing, fun hopen => hparen (Token.punct.inj hopen)⟩
  have hjoined (first second : Char) (hfirst : .punct first ∈ Grammar.openingSymbols)
      (hsecond : .punct second ∈ Grammar.closingSymbols)
      (h : (Token.punct first).Canonical ∧ (Token.punct second).Canonical)
      (hmark : first ≠ '/' ∧ second ≠ '/' ∧ first ≠ '(')
      (hspelled : Comparator.ofSpelling? ((Token.punct first).text ++ (Token.punct second).text) =
        some comparator) :
      Grammar.Sign (lex (first :: second :: ' ' :: rest)) (lex rest) comparator ∧
        upcoming (lex (first :: second :: ' ' :: rest)) ≠ .punct '(' := by
    rw [lex_punct h.1 hmark.1, lex_punct h.2 hmark.2.1, lex_blank]
    exact ⟨.joined hfirst hsecond hspelled, fun hopen => hmark.2.2 (Token.punct.inj hopen)⟩
  cases comparator with
  | eq => exact hsingle '=' (by decide) (by decide) (by decide) rfl
  | gt => exact hsingle '>' (by decide) (by decide) (by decide) rfl
  | lt => exact hsingle '<' (by decide) (by decide) (by decide) rfl
  | ne => exact hjoined '¬' '=' (by decide) (by decide) (by decide) (by decide) rfl
  | ge => exact hjoined '>' '=' (by decide) (by decide) (by decide) (by decide) rfl
  | le => exact hjoined '<' '=' (by decide) (by decide) (by decide) (by decide) rfl

theorem sign_of_spelled (style : ComparatorStyle) (comparator : Comparator)
    (hnext : ∀ symbol, upcoming (lex rest) ≠ .punct symbol) :
    Grammar.Sign (lex ((style.spell comparator).toList ++ ' ' :: rest)) (lex rest) comparator ∧
      upcoming (lex ((style.spell comparator).toList ++ ' ' :: rest)) ≠ .punct '(' := by
  cases style with
  | mnemonic => exact sign_of_mnemonic comparator
  | symbolic => exact sign_of_symbol comparator hnext

theorem Test.Readable.pair {test : Test} (h : test.Readable) (style : ComparatorStyle)
    (hrest : Apart rest) (hnext : upcoming (lex rest) ≠ .punct '(') :
    Grammar.Pair Present (lex ((test.spelled style).toList ++ rest)) (lex rest) test.written ∧
      ∀ symbol, upcoming (lex ((test.spelled style).toList ++ rest)) ≠ .punct symbol := by
  have htext : (test.spelled style).toList ++ rest = test.subject.toList ++ ' ' ::
      ((style.spell test.comparator).toList ++ ' ' :: (test.value.toList ++ rest)) := by
    simp [spelled]
  obtain ⟨hsign, hparen⟩ := sign_of_spelled style test.comparator
    (h.value.upcoming_ne_punct hrest hnext)
  rw [← lex_blank] at hsign hparen
  rw [htext]
  exact ⟨.mk (.named (h.subject.derives (apart_blank _) hparen)) hsign
    (h.value.derives hrest hnext) (.inl rfl),
    h.subject.upcoming_ne_punct (apart_blank _) hparen⟩

/-! ## Conditions -/

def Condition.spelled (style : ComparatorStyle) (condition : Condition) : String :=
  " AND ".intercalate (condition.tests.map (Test.spelled style))

structure Condition.Readable (condition : Condition) : Prop where
  tests_ne_nil : condition.tests ≠ []
  nodup : condition.tests.Nodup
  tests : ∀ test ∈ condition.tests, test.Readable

theorem lex_connective {word : String} (h : (Token.word word).Settled) (rest : List Char) :
    lex (' ' :: (word.toList ++ ' ' :: rest)) = .word word :: lex rest := by
  rw [lex_blank, ← lex_blank rest]
  exact lex_settled h (apart_blank rest)

/-- A test before others that are not it makes one condition with them, in either mode. -/
theorem CombineMode.combine_single (mode : CombineMode) {test : Test} {tests : List Test}
    (h : (test :: tests).Nodup) : mode.combine [.single test] [⟨tests⟩] = [⟨test :: tests⟩] := by
  have hmerge : (Condition.single test).merge ⟨tests⟩ = ⟨test :: tests⟩ :=
    Condition.merge_of_nodup h
  have hdistribute : distribute.combine [.single test] [⟨tests⟩] = [⟨test :: tests⟩] :=
    congrArg (fun condition => [condition]) hmerge
  cases mode with
  | merge =>
      rw [merge_combine_eq_distribute (by simp) (by simp [Condition.single]), hdistribute]
  | distribute => exact hdistribute

theorem condition_of_tests {mode : CombineMode} (style : ComparatorStyle) (hrest : Apart rest)
    (hnext : upcoming (lex rest) ≠ .punct '(') {test : Test} {tests : List Test}
    (hnodup : (test :: tests).Nodup) (h : ∀ t ∈ test :: tests, t.Readable) :
    Grammar.Condition Present mode
      (lex ((Condition.spelled style ⟨test :: tests⟩).toList ++ rest)) (lex rest)
      [⟨test :: tests⟩] ((test :: tests).map Test.written) := by
  induction tests generalizing test with
  | nil =>
      obtain ⟨hpair, hfirst⟩ := (h test List.mem_cons_self).pair style hrest hnext
      have htext : Condition.spelled style ⟨[test]⟩ = test.spelled style := by
        simp [Condition.spelled]
      rw [htext]
      exact .part (.pair (hfirst '(') (hfirst ')') hpair)
  | cons second tests ih =>
      have htext : (Condition.spelled style ⟨test :: second :: tests⟩).toList ++ rest =
          (test.spelled style).toList ++ ' ' :: ("AND".toList ++ ' ' ::
            ((Condition.spelled style ⟨second :: tests⟩).toList ++ rest)) := by
        simp [Condition.spelled]
      have hand : (Token.word "AND").Settled := by decide
      have hconnective := lex_connective hand
        ((Condition.spelled style ⟨second :: tests⟩).toList ++ rest)
      have hparen : upcoming (lex (' ' :: ("AND".toList ++ ' ' ::
          ((Condition.spelled style ⟨second :: tests⟩).toList ++ rest)))) ≠ .punct '(' := by
        rw [hconnective]
        exact Token.noConfusion
      obtain ⟨hpair, hfirst⟩ := (h test List.mem_cons_self).pair style (apart_blank _) hparen
      have hothers := ih (List.nodup_cons.1 hnodup).2 fun t ht => h t (List.mem_cons_of_mem test ht)
      rw [hconnective] at hpair
      rw [htext, ← mode.combine_single hnodup]
      exact .both (.pair (hfirst '(') (hfirst ')') hpair) (by decide) hothers

theorem Condition.Readable.condition {condition : Condition} (h : condition.Readable)
    (mode : CombineMode) (style : ComparatorStyle) (hrest : Apart rest)
    (hnext : upcoming (lex rest) ≠ .punct '(') :
    Grammar.Condition Present mode (lex ((condition.spelled style).toList ++ rest)) (lex rest)
      [condition] (condition.tests.map Test.written) := by
  obtain ⟨tests⟩ := condition
  obtain ⟨test, tests, rfl⟩ := List.exists_cons_of_ne_nil h.tests_ne_nil
  exact condition_of_tests style hrest hnext h.nodup h.tests

/-! ## Lists of conditions -/

def Alternatives.spelled (style : ComparatorStyle) (alternatives : Alternatives) : String :=
  " OR ".intercalate (alternatives.map fun condition => "(" ++ condition.spelled style ++ ")")

theorem Condition.Readable.part {condition : Condition} (h : condition.Readable)
    (mode : CombineMode) (style : ComparatorStyle) (rest : List Char) :
    Grammar.Part Present mode (lex ('(' :: ((condition.spelled style).toList ++ ')' :: rest)))
      (lex rest) [condition] (condition.tests.map Test.written) := by
  have hparen : upcoming (lex (')' :: rest)) ≠ .punct '(' := by
    rw [lex_close]
    simp
  have hcondition := h.condition mode style (apart_close rest) hparen
  rw [lex_close] at hcondition
  rw [lex_open]
  exact .group hcondition

theorem condition_of_list (mode : CombineMode) (style : ComparatorStyle) {first : Condition}
    {others : List Condition} (h : ∀ condition ∈ first :: others, condition.Readable)
    (rest : List Char) : Grammar.Condition Present mode
      (lex ((Alternatives.spelled style (first :: others)).toList ++ rest)) (lex rest)
      (first :: others) ((Alternatives.tests (first :: others)).map Test.written) := by
  induction others generalizing first with
  | nil =>
      have htext : (Alternatives.spelled style [first]).toList ++ rest =
          '(' :: ((first.spelled style).toList ++ ')' :: rest) := by
        simp [Alternatives.spelled]
      rw [htext, Alternatives.tests_cons, Alternatives.tests_nil, List.append_nil]
      exact .part ((h first List.mem_cons_self).part mode style rest)
  | cons second others ih =>
      have htext : (Alternatives.spelled style (first :: second :: others)).toList ++ rest =
          '(' :: ((first.spelled style).toList ++ ')' :: ' ' :: ("OR".toList ++ ' ' ::
            ((Alternatives.spelled style (second :: others)).toList ++ rest))) := by
        simp [Alternatives.spelled]
      have hor : (Token.word "OR").Settled := by decide
      have hpart := (h first List.mem_cons_self).part mode style (' ' :: ("OR".toList ++ ' ' ::
        ((Alternatives.spelled style (second :: others)).toList ++ rest)))
      rw [lex_connective hor] at hpart
      rw [htext, Alternatives.tests_cons, List.map_append]
      exact .either hpart (by decide)
        (ih fun condition hcondition => h condition (List.mem_cons_of_mem first hcondition))

/-! ## Whole texts -/

/-- The whole text is a guard with these alternatives in either mode.  Nothing is odd about it, and
its variables are registered in the order in which they appear. -/
def Alternatives.ReadFrom (alternatives : Alternatives) (text : String) : Prop :=
  ∃ guard s, Reader.expr (Reading.ofSource text) = .ok guard s ∧
    (∀ mode, guard.alternatives mode = alternatives) ∧ s.tokens.next.1 = .endOfSource ∧
    s.anomalies = [] ∧
    s.registry = .ofList (alternatives.tests.map Test.subject)

theorem readFrom_of_condition {text : String} {alternatives : Alternatives}
    (h : ∀ mode, Grammar.Condition Present mode (lex text.toList) [] alternatives
      (alternatives.tests.map Test.written)) : alternatives.ReadFrom text := by
  have hread (mode : CombineMode) : ∃ guard s, Reader.expr (Reading.ofSource text) = .ok guard s ∧
      guard.alternatives mode = alternatives ∧ s.tokens.toList = [] ∧
      (Reading.ofSource text).Gains s (alternatives.tests.map Test.written) := by
    have htokens : (Reading.ofSource text).tokens.toList = lex text.toList :=
      TokenStream.toList_ofSource text
    have haccepts : Reader.Accepts ((lex text.toList).length + 1) Reader.expr
        (Expr.alternatives mode) (Reader.Taken mode) := Reader.accepts_expr
    refine haccepts.complete (by rw [htokens]; exact Nat.lt_succ_self _) ?_
    rw [htokens]
    exact ⟨h mode, by decide, by decide⟩
  obtain ⟨guard, s, hrun, -, hrest, hgains⟩ := hread .merge
  refine ⟨guard, s, hrun, fun mode => ?_, TokenStream.toList_eq_nil_iff.1 hrest, ?_, ?_⟩
  · obtain ⟨guard', s', hrun', hvalue, -⟩ := hread mode
    cases hrun.symm.trans hrun'
    exact hvalue
  · have hnone : alternatives.tests.filterMap (WrittenTest.anomaly? ∘ Test.written) = [] :=
      List.filterMap_eq_nil_iff.2 fun test _ => rfl
    have hkinds := hgains.anomalies
    rw [List.filterMap_map, hnone] at hkinds
    exact List.map_eq_nil_iff.1 hkinds
  · rw [hgains.registry, Registry.ofList, List.foldl_map, List.foldl_map]
    rfl

/-- The text of a condition is read back as this condition alone, and the texts of a list of
conditions, each in parentheses and joined by OR, as the list. -/
theorem readFrom_of_readable {conditions : List Condition} (hne : conditions ≠ [])
    (h : ∀ condition ∈ conditions, condition.Readable) (style : ComparatorStyle) :
    (∀ condition ∈ conditions, Alternatives.ReadFrom [condition] (condition.spelled style)) ∧
      Alternatives.ReadFrom conditions (Alternatives.spelled style conditions) ∧
      ∀ condition : Condition, condition.spelled .mnemonic = condition.display := by
  have hend : Apart [] := by
    rintro c ⟨⟩
  refine ⟨fun condition hcondition => readFrom_of_condition fun mode => ?_,
    readFrom_of_condition fun mode => ?_, fun condition => rfl⟩
  · have hread := (h condition hcondition).condition mode style hend (by decide +kernel)
    rwa [List.append_nil, Token.lex_nil, ← List.flatMap_singleton Condition.tests] at hread
  · obtain ⟨first, others, rfl⟩ := List.exists_cons_of_ne_nil hne
    have hread := condition_of_list mode style h []
    rwa [List.append_nil, Token.lex_nil] at hread

/-- Qualified variables, one of them as a value, a literal with a blank and a value like a
keyword. -/
theorem readFrom_of_twoConditions :
    let first : Condition := ⟨[⟨"&DSN(3)", .ne, "'A B'"⟩, ⟨"&SIZE", .le, "&MAX(*)"⟩]⟩
    let second : Condition := ⟨[⟨"&X", .gt, "AND"⟩]⟩
    (∀ condition ∈ [first, second], condition.Readable) ∧
      Alternatives.ReadFrom [first] "&DSN(3) ¬= 'A B' AND &SIZE <= &MAX(*)" ∧
      Alternatives.ReadFrom [first, second]
        "(&DSN(3) ¬= 'A B' AND &SIZE <= &MAX(*)) OR (&X > AND)" := by
  intro first second
  have hdsn : VariableText "&DSN(3)" :=
    @VariableText.qualified "&DSN" (.word "3") (by decide +kernel) rfl (by decide +kernel)
  have hmax : VariableText "&MAX(*)" :=
    @VariableText.qualified "&MAX" (.word "*") (by decide +kernel) rfl (by decide +kernel)
  have hliteral : ValueText "'A B'" := @ValueText.literal "A B" (by decide +kernel)
  have hfirst : first.Readable := by
    refine ⟨by decide, by decide, ?_⟩
    simp only [first, List.forall_mem_cons, List.not_mem_nil, false_implies, implies_true, and_true]
    exact ⟨⟨hdsn, hliteral⟩, ⟨.plain (by decide +kernel) rfl, .named hmax⟩⟩
  have hsecond : second.Readable := by
    refine ⟨by decide, by decide, ?_⟩
    simp only [second, List.forall_mem_cons, List.not_mem_nil, false_implies, implies_true,
      and_true]
    exact ⟨.plain (by decide +kernel) rfl, .word (by decide +kernel)⟩
  have h : ∀ condition ∈ [first, second], condition.Readable := by simp [hfirst, hsecond]
  obtain ⟨hone, hboth, -⟩ := readFrom_of_readable (by simp) h .symbolic
  exact ⟨h, hone first List.mem_cons_self, hboth⟩

end ClassSelection
