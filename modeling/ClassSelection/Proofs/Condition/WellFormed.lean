import ClassSelection.Proofs.Condition.Tests
import ClassSelection.Proofs.Token.Layout
import Mathlib.Data.List.Nodup

/-!
# Well-formed conditions

A test compares a registered variable with a value, and a condition holds some
such tests, each once.  Conjunction and negation keep this, in either mode.  What
they keep (`Alternatives.Kept`) carries over from the guards of a routine to its
rules.  In a guard the value is moreover one that tokens spell (`Written`).
-/

namespace ClassSelection

structure Test.WellFormed (names : List String) (test : Test) : Prop where
  isVariable : isVariable test.subject = true
  registered : test.subject ∈ names
  value_ne_empty : test.value ≠ ""

structure Condition.WellFormed (names : List String) (condition : Condition) : Prop where
  tests_ne_nil : condition.tests ≠ []
  nodup : condition.tests.Nodup
  tests : ∀ test ∈ condition.tests, test.WellFormed names

def Alternatives.WellFormed (names : List String) (alternatives : Alternatives) : Prop :=
  ∀ condition ∈ alternatives, condition.WellFormed names

/-- A value as it is read: the text of a token, or of a variable with its qualifier. -/
inductive Written : String → Prop
  | token {token : Token} (h : token.Canonical) : Written token.text
  | qualified {name qualifier : Token} (hname : name.Canonical) (hvariable : name.isVariable = true)
      (hqualifier : qualifier.Canonical) : Written (name.text ++ "(" ++ qualifier.text ++ ")")

structure Test.AsRead (names : List String) (test : Test) : Prop extends
    Test.WellFormed names test where
  written : Written test.value

def Expr.WellFormed (names : List String) (expr : Expr) : Prop :=
  ∀ test ∈ expr.tests, test.AsRead names

variable {names : List String} {mode : CombineMode}

theorem Token.Canonical.text_ne_empty {token : Token} (h : token.Canonical) : token.text ≠ "" := by
  intro hempty
  cases token with
  | word text => exact h.1 (by rw [← String.toList_empty]; exact congrArg String.toList hempty)
  | literal text => simp [Token.text] at hempty
  | punct symbol => simp [Token.text] at hempty
  | endOfSource => exact h

theorem Written.ne_empty {value : String} (h : Written value) : value ≠ "" := by
  cases h with
  | token h => exact h.text_ne_empty
  | qualified => simp

theorem Test.WellFormed.mono {names' : List String} {test : Test} (hnames : names ⊆ names')
    (h : test.WellFormed names) : test.WellFormed names' :=
  ⟨h.isVariable, hnames h.registered, h.value_ne_empty⟩

theorem Test.WellFormed.negate {test : Test} (h : test.WellFormed names) :
    test.negate.WellFormed names :=
  ⟨h.isVariable, h.registered, h.value_ne_empty⟩

namespace Test.AsRead

theorem of_written {test : Test} (hvariable : isVariable test.subject = true)
    (hregistered : test.subject ∈ names) (hwritten : Written test.value) : test.AsRead names :=
  ⟨⟨hvariable, hregistered, hwritten.ne_empty⟩, hwritten⟩

theorem mono {names' : List String} {test : Test} (hnames : names ⊆ names')
    (h : test.AsRead names) : test.AsRead names' :=
  ⟨h.toWellFormed.mono hnames, h.written⟩

theorem negate {test : Test} (h : test.AsRead names) : test.negate.AsRead names :=
  ⟨h.toWellFormed.negate, h.written⟩

end Test.AsRead

/-! ## Conditions -/

namespace Condition

theorem nodup_insert {condition : Condition} (h : condition.tests.Nodup) (test : Test) :
    (condition.insert test).tests.Nodup := by
  rw [tests_insert]
  exact nodup_addNew h test

theorem nodup_merge {condition : Condition} (h : condition.tests.Nodup) (other : Condition) :
    (condition.merge other).tests.Nodup := by
  obtain ⟨tests⟩ := other
  unfold merge
  induction tests generalizing condition with
  | nil => exact h
  | cons test tests ih => exact ih (nodup_insert h test)

theorem nodup_foldl_merge {left accumulated : Condition} (h : accumulated.tests.Nodup)
    (right : Alternatives) :
    (right.foldl (fun merged r => (merged.merge left).merge r) accumulated).tests.Nodup := by
  induction right generalizing accumulated with
  | nil => exact h
  | cons first right ih => exact ih (nodup_merge (nodup_merge h left) first)

theorem wellFormed_single {test : Test} (h : test.WellFormed names) :
    (single test).WellFormed names where
  tests_ne_nil := List.cons_ne_nil test []
  nodup := List.nodup_singleton test
  tests other hother := by
    obtain rfl := List.mem_singleton.1 hother
    exact h

end Condition

/-! ## Alternatives -/

namespace Alternatives.WellFormed

theorem nil : WellFormed names [] := by
  simp [WellFormed]

theorem append {left right : Alternatives} (hleft : left.WellFormed names)
    (hright : right.WellFormed names) : WellFormed names (left ++ right) := by
  intro condition h
  exact (List.mem_append.1 h).elim (hleft condition) (hright condition)

theorem test_of_mem {alternatives : Alternatives} (h : alternatives.WellFormed names) {test : Test}
    (ht : test ∈ alternatives.tests) : test.WellFormed names := by
  obtain ⟨condition, hcondition, ht⟩ := Alternatives.mem_tests.1 ht
  exact (h condition hcondition).tests test ht

theorem combine {left right : Alternatives} (hleft : left.WellFormed names)
    (hright : right.WellFormed names) : (mode.combine left right).WellFormed names := by
  rcases eq_or_ne left [] with rfl | hl
  · simpa using hright
  rcases eq_or_ne right [] with rfl | hr
  · simpa using hleft
  intro condition hcondition
  obtain ⟨l, hlmem, _, _, hsub, _⟩ := CombineMode.exists_of_mem_combine hl hr hcondition
  obtain ⟨first, hfirst⟩ := List.exists_mem_of_ne_nil _ (hleft l hlmem).tests_ne_nil
  refine ⟨List.ne_nil_of_mem (hsub hfirst), ?_, fun test ht => ?_⟩
  · cases mode with
    | merge =>
        rw [CombineMode.combine_merge_cons hl hr, List.mem_map] at hcondition
        obtain ⟨l, -, rfl⟩ := hcondition
        exact Condition.nodup_foldl_merge List.nodup_nil right
    | distribute =>
        rw [CombineMode.combine_distribute_cons hl hr, List.mem_flatMap] at hcondition
        obtain ⟨l, hlmem, hcondition⟩ := hcondition
        obtain ⟨r, -, rfl⟩ := List.mem_map.1 hcondition
        exact Condition.nodup_merge (hleft l hlmem).nodup r
  · have hmem : test ∈ (mode.combine left right).tests :=
      Alternatives.mem_tests.2 ⟨condition, hcondition, ht⟩
    exact (CombineMode.mem_tests_combine.1 hmem).elim hleft.test_of_mem hright.test_of_mem

theorem negate_condition {condition : Condition} (h : condition.WellFormed names) :
    WellFormed names condition.negate := by
  intro negated hnegated
  obtain ⟨test, ht, rfl⟩ := List.mem_map.1 hnegated
  exact Condition.wellFormed_single (h.tests test ht).negate

theorem negate {alternatives : Alternatives} (h : alternatives.WellFormed names) :
    (mode.negate alternatives).WellFormed names := by
  unfold CombineMode.negate
  have hfold : ∀ {result : Alternatives}, result.WellFormed names →
      WellFormed names
        (alternatives.foldl (fun result c => mode.combine c.negate result) result) := by
    induction alternatives with
    | nil => exact id
    | cons first alternatives ih =>
        intro result hresult
        exact ih (fun c hc => h c (List.mem_cons_of_mem _ hc))
          ((negate_condition (h first List.mem_cons_self)).combine hresult)
  exact hfold nil

end Alternatives.WellFormed

/-! ## What conjunction and negation keep -/

/-- A property of guards that carries over to the guards made of them. -/
structure Alternatives.Kept (mode : CombineMode) (P : Alternatives → Prop) : Prop where
  nil : P []
  combine : ∀ {left right}, P left → P right → P (mode.combine left right)
  negate : ∀ {alternatives}, P alternatives → P (mode.negate alternatives)

namespace Alternatives.Kept

variable {P : Alternatives → Prop}

theorem wellFormed (mode : CombineMode) (names : List String) :
    Kept mode (Alternatives.WellFormed names) :=
  ⟨.nil, .combine, .negate⟩

theorem forall_tests (mode : CombineMode) {Q : Test → Prop} (hQ : ∀ test, Q test → Q test.negate) :
    Kept mode fun alternatives => ∀ test ∈ alternatives.tests, Q test where
  nil := by simp
  combine hleft hright test htest :=
    (CombineMode.mem_tests_combine.1 htest).elim (hleft test) (hright test)
  negate h test htest := by
    rw [← test.negate_negate]
    exact hQ _ (h _ (CombineMode.mem_tests_negate.1 htest))

theorem flatten (hP : Kept mode P) {entries : List Alternatives} (h : ∀ entry ∈ entries, P entry) :
    P (mode.flatten entries) := by
  induction entries using List.reverseRecOn with
  | nil => exact hP.nil
  | append_singleton entries entry ih =>
      rw [CombineMode.flatten_append_singleton]
      exact hP.combine (h entry (by simp)) (ih fun other hother => h other (by simp [hother]))

theorem noneOf (hP : Kept mode P) {branches : List Alternatives}
    (h : ∀ branch ∈ branches, P branch) : P (mode.noneOf branches) := by
  induction branches using List.reverseRecOn with
  | nil => exact hP.nil
  | append_singleton branches branch ih =>
      rw [CombineMode.noneOf_append_singleton]
      exact hP.combine (ih fun other hother => h other (by simp [hother]))
        (hP.negate (h branch (by simp)))

end Alternatives.Kept

/-! ## Guards -/

namespace Expr.WellFormed

theorem mono {names' : List String} {expr : Expr} (hnames : names ⊆ names')
    (h : expr.WellFormed names) : expr.WellFormed names' :=
  fun test ht => (h test ht).mono hnames

theorem test {t : Test} (h : t.AsRead names) : WellFormed names (.test t) := by
  intro other hother
  obtain rfl := List.mem_singleton.1 hother
  exact h

theorem both {left right : Expr} (hleft : left.WellFormed names) (hright : right.WellFormed names) :
    WellFormed names (.both left right) :=
  fun t ht => (List.mem_append.1 ht).elim (hleft t) (hright t)

theorem either {left right : Expr} (hleft : left.WellFormed names)
    (hright : right.WellFormed names) : WellFormed names (.either left right) :=
  fun t ht => (List.mem_append.1 ht).elim (hleft t) (hright t)

theorem oneOf {subject : String} (hvariable : isVariable subject = true)
    (hsubject : subject ∈ names) {first : String} (hfirst : Written first) {others : List String}
    (hothers : ∀ value ∈ others, Written value) :
    WellFormed names (.oneOf subject first others) := by
  have hequal {value : String} (hvalue : Written value) :
      WellFormed names (.test ⟨subject, .eq, value⟩) := test (.of_written hvariable hsubject hvalue)
  induction others generalizing first with
  | nil => exact hequal hfirst
  | cons second others ih =>
      exact either (hequal hfirst) (ih (hothers second List.mem_cons_self)
        fun value hvalue => hothers value (List.mem_cons_of_mem _ hvalue))

theorem alternatives {expr : Expr} (h : expr.WellFormed names) :
    (expr.alternatives mode).WellFormed names := by
  induction expr with
  | test t =>
      intro condition hcondition
      obtain rfl := List.mem_singleton.1 hcondition
      exact Condition.wellFormed_single (h t List.mem_cons_self).toWellFormed
  | both left right hleft hright =>
      exact (hleft fun t ht => h t (List.mem_append_left _ ht)).combine
        (hright fun t ht => h t (List.mem_append_right _ ht))
  | either left right hleft hright =>
      exact (hleft fun t ht => h t (List.mem_append_left _ ht)).append
        (hright fun t ht => h t (List.mem_append_right _ ht))

end Expr.WellFormed

end ClassSelection
