import ClassSelection.Condition.Expr
import ClassSelection.Proofs.Condition.FirstOccurrence
import ClassSelection.Table.Unfold
import Mathlib.Data.List.Basic
import Mathlib.Data.List.Induction
import Mathlib.Tactic.Tauto

/-!
# The tests of a set of alternatives

Which tests occur in a conjunction, a negation or a flattened stack of guards,
and when such a set is empty.  Both depend on the combine mode only through
the way the tests are grouped: `mem_tests_combine` and `combine_eq_nil` hold
of either mode, and so does everything that is folded from `combine`.
-/

namespace ClassSelection

namespace Condition

theorem tests_insert (condition : Condition) (test : Test) :
    (condition.insert test).tests = addNew condition.tests test := by
  unfold insert addNew contains
  split <;> rfl

theorem mem_tests_insert {condition : Condition} {test other : Test} :
    test ∈ (condition.insert other).tests ↔ test ∈ condition.tests ∨ test = other := by
  rw [tests_insert, mem_addNew]

theorem mem_tests_merge {condition other : Condition} {test : Test} :
    test ∈ (condition.merge other).tests ↔ test ∈ condition.tests ∨ test ∈ other.tests := by
  obtain ⟨tests⟩ := other
  unfold merge
  induction tests generalizing condition with
  | nil => simp
  | cons first tests ih =>
      rw [List.foldl_cons, ih, mem_tests_insert]
      simp only [List.mem_cons]
      tauto

/-- A condition of the merge mode: the left condition and all tests of the right side. -/
theorem mem_tests_foldl_merge {left accumulated : Condition} {right : Alternatives} {test : Test} :
    test ∈ (right.foldl (fun merged r => (merged.merge left).merge r) accumulated).tests ↔
      test ∈ accumulated.tests ∨ (right ≠ [] ∧ test ∈ left.tests) ∨
        ∃ condition ∈ right, test ∈ condition.tests := by
  induction right generalizing accumulated with
  | nil => simp
  | cons first right ih =>
      rw [List.foldl_cons, ih, mem_tests_merge, mem_tests_merge]
      simp only [List.mem_cons, exists_eq_or_imp, ne_eq, reduceCtorEq, not_false_eq_true, true_and]
      tauto

end Condition

namespace Alternatives

def tests (alternatives : Alternatives) : List Test :=
  alternatives.flatMap Condition.tests

theorem mem_tests {alternatives : Alternatives} {test : Test} :
    test ∈ alternatives.tests ↔ ∃ condition ∈ alternatives, test ∈ condition.tests :=
  List.mem_flatMap

@[simp] theorem tests_nil : tests [] = [] := rfl

@[simp] theorem tests_cons (condition : Condition) (others : Alternatives) :
    tests (condition :: others) = condition.tests ++ others.tests := rfl

@[simp] theorem tests_append (left right : Alternatives) :
    tests (left ++ right) = left.tests ++ right.tests := List.flatMap_append

theorem tests_negate (condition : Condition) :
    tests condition.negate = condition.tests.map Test.negate := by
  obtain ⟨tests⟩ := condition
  induction tests with
  | nil => rfl
  | cons test tests ih => simp_all [Condition.negate, Condition.single]

/-- A guard that rules something out: there is a condition, and each of them has a test. -/
structure Proper (alternatives : Alternatives) : Prop where
  ne_nil : alternatives ≠ []
  tests_ne_nil : ∀ condition ∈ alternatives, condition.tests ≠ []

end Alternatives

namespace CombineMode

variable {mode : CombineMode}

theorem combine_merge_cons {left right : Alternatives} (hleft : left ≠ []) (hright : right ≠ []) :
    merge.combine left right =
      left.map fun l => right.foldl (fun merged r => (merged.merge l).merge r) .empty := by
  simp [combine, hleft, hright]

theorem combine_distribute_cons {left right : Alternatives}
    (hleft : left ≠ []) (hright : right ≠ []) :
    distribute.combine left right = left.flatMap fun l => right.map fun r => l.merge r := by
  simp [combine, hleft, hright]

theorem length_combine_merge {left right : Alternatives} (hleft : left ≠ []) :
    (merge.combine left right).length = left.length := by
  rcases eq_or_ne right [] with rfl | hright
  · rw [combine_nil_right]
  · rw [combine_merge_cons hleft hright, List.length_map]

theorem length_combine_distribute {left right : Alternatives}
    (hleft : left ≠ []) (hright : right ≠ []) :
    (distribute.combine left right).length = left.length * right.length := by
  rw [combine_distribute_cons hleft hright]
  simp [List.length_flatMap]

theorem combine_eq_nil {left right : Alternatives} :
    mode.combine left right = [] ↔ left = [] ∧ right = [] := by
  rcases eq_or_ne left [] with rfl | hleft
  · simp
  rcases eq_or_ne right [] with rfl | hright
  · simp
  obtain ⟨first, others, rfl⟩ := List.exists_cons_of_ne_nil hleft
  cases mode with
  | merge => simp [combine_merge_cons hleft hright]
  | distribute => simp [combine_distribute_cons hleft hright, hright]

/-- A condition of a conjunction has the tests of one condition on the left, and of at least one
on the right. -/
theorem exists_of_mem_combine {left right : Alternatives} (hleft : left ≠ []) (hright : right ≠ [])
    {condition : Condition} (h : condition ∈ mode.combine left right) :
    ∃ l ∈ left, ∃ r ∈ right, l.tests ⊆ condition.tests ∧ r.tests ⊆ condition.tests := by
  cases mode with
  | merge =>
    rw [combine_merge_cons hleft hright, List.mem_map] at h
    obtain ⟨l, hl, rfl⟩ := h
    obtain ⟨r, hr⟩ := List.exists_mem_of_ne_nil right hright
    refine ⟨l, hl, r, hr, fun test ht => ?_, fun test ht => ?_⟩
    · exact Condition.mem_tests_foldl_merge.2 (.inr (.inl ⟨hright, ht⟩))
    · exact Condition.mem_tests_foldl_merge.2 (.inr (.inr ⟨r, hr, ht⟩))
  | distribute =>
    rw [combine_distribute_cons hleft hright, List.mem_flatMap] at h
    obtain ⟨l, hl, h⟩ := h
    obtain ⟨r, hr, rfl⟩ := List.mem_map.1 h
    refine ⟨l, hl, r, hr, fun test ht => ?_, fun test ht => ?_⟩
    · exact Condition.mem_tests_merge.2 (.inl ht)
    · exact Condition.mem_tests_merge.2 (.inr ht)

theorem mem_tests_combine {left right : Alternatives} {test : Test} :
    test ∈ (mode.combine left right).tests ↔ test ∈ left.tests ∨ test ∈ right.tests := by
  rcases eq_or_ne left [] with rfl | hleft
  · simp
  rcases eq_or_ne right [] with rfl | hright
  · simp
  obtain ⟨l₀, hl₀⟩ := List.exists_mem_of_ne_nil left hleft
  obtain ⟨r₀, hr₀⟩ := List.exists_mem_of_ne_nil right hright
  simp only [Alternatives.mem_tests]
  cases mode with
  | merge =>
    rw [combine_merge_cons hleft hright]
    simp only [List.mem_map, exists_exists_and_eq_and, Condition.mem_tests_foldl_merge,
      Condition.empty, List.not_mem_nil, false_or]
    constructor
    · rintro ⟨l, hl, ⟨-, ht⟩ | h⟩
      · exact .inl ⟨l, hl, ht⟩
      · exact .inr h
    · rintro (⟨l, hl, ht⟩ | h)
      · exact ⟨l, hl, .inl ⟨hright, ht⟩⟩
      · exact ⟨l₀, hl₀, .inr h⟩
  | distribute =>
    rw [combine_distribute_cons hleft hright]
    simp only [List.mem_flatMap, List.mem_map]
    constructor
    · rintro ⟨_, ⟨l, hl, r, hr, rfl⟩, ht⟩
      rcases Condition.mem_tests_merge.1 ht with ht | ht
      · exact .inl ⟨l, hl, ht⟩
      · exact .inr ⟨r, hr, ht⟩
    · rintro (⟨l, hl, ht⟩ | ⟨r, hr, ht⟩)
      · exact ⟨_, ⟨l, hl, r₀, hr₀, rfl⟩, Condition.mem_tests_merge.2 (.inl ht)⟩
      · exact ⟨_, ⟨l₀, hl₀, r, hr, rfl⟩, Condition.mem_tests_merge.2 (.inr ht)⟩

/-! ## Negation -/

private theorem mem_tests_foldl_negate {alternatives result : Alternatives} {test : Test} :
    test ∈ Alternatives.tests
        (alternatives.foldl (fun result c => mode.combine c.negate result) result) ↔
      test ∈ result.tests ∨ test.negate ∈ alternatives.tests := by
  induction alternatives generalizing result with
  | nil => simp
  | cons first alternatives ih =>
      have hfirst : test ∈ Alternatives.tests first.negate ↔ test.negate ∈ first.tests := by
        rw [Alternatives.tests_negate, List.mem_map]
        constructor
        · rintro ⟨other, hother, rfl⟩
          simpa using hother
        · intro h
          exact ⟨test.negate, h, test.negate_negate⟩
      rw [List.foldl_cons, ih, mem_tests_combine, hfirst, Alternatives.tests_cons, List.mem_append]
      tauto

theorem mem_tests_negate {alternatives : Alternatives} {test : Test} :
    test ∈ (mode.negate alternatives).tests ↔ test.negate ∈ alternatives.tests := by
  rw [negate, mem_tests_foldl_negate]
  simp

private theorem foldl_negate_eq_nil {alternatives result : Alternatives} :
    alternatives.foldl (fun result c => mode.combine c.negate result) result = [] ↔
      result = [] ∧ alternatives.tests = [] := by
  induction alternatives generalizing result with
  | nil => simp
  | cons first alternatives ih =>
      have hfirst : first.negate = [] ↔ first.tests = [] := by simp [Condition.negate]
      rw [List.foldl_cons, ih, combine_eq_nil, hfirst, Alternatives.tests_cons,
        List.append_eq_nil_iff]
      tauto

theorem negate_append_singleton (alternatives : Alternatives) (condition : Condition) :
    mode.negate (alternatives ++ [condition]) =
      mode.combine condition.negate (mode.negate alternatives) := by
  simp [negate]

theorem negate_eq_nil {alternatives : Alternatives} :
    mode.negate alternatives = [] ↔ alternatives.tests = [] := by
  rw [negate, foldl_negate_eq_nil]
  simp

theorem negate_ne_nil {alternatives : Alternatives} (h : alternatives.Proper) :
    mode.negate alternatives ≠ [] := by
  obtain ⟨condition, hcondition⟩ := List.exists_mem_of_ne_nil _ h.ne_nil
  obtain ⟨test, htest⟩ := List.exists_mem_of_ne_nil _ (h.tests_ne_nil condition hcondition)
  rw [Ne, negate_eq_nil]
  exact List.ne_nil_of_mem (Alternatives.mem_tests.2 ⟨condition, hcondition, htest⟩)

/-! ## Flattened guards and the guard of an OTHERWISE -/

theorem flatten_append_singleton (entries : List Alternatives) (entry : Alternatives) :
    mode.flatten (entries ++ [entry]) = mode.combine entry (mode.flatten entries) := by
  simp [flatten]

theorem noneOf_append_singleton (branches : List Alternatives) (branch : Alternatives) :
    mode.noneOf (branches ++ [branch]) =
      mode.combine (mode.noneOf branches) (mode.negate branch) := by
  simp [noneOf]

theorem mem_tests_flatten {entries : List Alternatives} {test : Test} :
    test ∈ (mode.flatten entries).tests ↔ ∃ entry ∈ entries, test ∈ entry.tests := by
  induction entries using List.reverseRecOn with
  | nil => simp [flatten]
  | append_singleton entries entry ih =>
      rw [flatten_append_singleton, mem_tests_combine, ih]
      simp only [List.mem_append, List.mem_singleton, or_and_right, exists_or, exists_eq_left]
      exact or_comm

theorem flatten_eq_nil {entries : List Alternatives} :
    mode.flatten entries = [] ↔ ∀ entry ∈ entries, entry = [] := by
  induction entries using List.reverseRecOn with
  | nil => simp [flatten]
  | append_singleton entries entry ih =>
      rw [flatten_append_singleton, combine_eq_nil, ih]
      simp only [List.mem_append, List.mem_singleton, or_imp, forall_and, forall_eq]
      tauto

end CombineMode

/-! ## Guards as they are written -/

theorem Alternatives.Proper.combine {mode : CombineMode} {left right : Alternatives}
    (hleft : left.Proper) (hright : right.Proper) : (mode.combine left right).Proper where
  ne_nil h := hleft.ne_nil (CombineMode.combine_eq_nil.1 h).1
  tests_ne_nil condition h := by
    obtain ⟨l, hl, _, _, hsub, _⟩ :=
      CombineMode.exists_of_mem_combine hleft.ne_nil hright.ne_nil h
    obtain ⟨test, htest⟩ := List.exists_mem_of_ne_nil _ (hleft.tests_ne_nil l hl)
    exact List.ne_nil_of_mem (hsub htest)

theorem Expr.proper_alternatives (mode : CombineMode) (expr : Expr) :
    (expr.alternatives mode).Proper := by
  induction expr with
  | test t => exact ⟨by simp [alternatives], by simp [alternatives, Condition.single]⟩
  | both left right hleft hright => exact hleft.combine hright
  | either left right hleft hright =>
      refine ⟨by simp [alternatives, hleft.ne_nil], fun condition h => ?_⟩
      rcases List.mem_append.1 h with h | h
      · exact hleft.tests_ne_nil condition h
      · exact hright.tests_ne_nil condition h

def Expr.tests : Expr → List Test
  | test t => [t]
  | both left right | either left right => left.tests ++ right.tests

theorem Expr.mem_tests_alternatives {mode : CombineMode} {expr : Expr} {test : Test} :
    test ∈ (expr.alternatives mode).tests ↔ test ∈ expr.tests := by
  induction expr with
  | test t => simp [alternatives, tests, Condition.single]
  | both left right hleft hright =>
      rw [alternatives, CombineMode.mem_tests_combine, hleft, hright, tests, List.mem_append]
  | either left right hleft hright =>
      rw [alternatives, Alternatives.tests_append, List.mem_append, hleft, hright, tests,
        List.mem_append]

end ClassSelection
