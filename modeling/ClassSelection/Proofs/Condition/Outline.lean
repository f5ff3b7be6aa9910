import ClassSelection.Proofs.Condition.Tests
import Mathlib.Algebra.BigOperators.Group.List.Basic
import Mathlib.Data.Finset.Union

/-!
# Outlines

What `sameTests` sees of alternatives: the set of tests of each condition, in
order.  No operation loses or invents a test (`conserves_tests`).  The outline of
a conjunction is the product of the outlines of its sides, and outlines under
this product are a monoid in either mode, with "no constraint" for its unit.  So
the order of the guards matters, but not the direction in which they are folded.
-/

namespace ClassSelection

def Condition.testSet (condition : Condition) : Finset Test :=
  condition.tests.toFinset

def Alternatives.testSet (alternatives : Alternatives) : Finset Test :=
  alternatives.tests.toFinset

namespace Condition

@[simp] theorem mem_testSet {condition : Condition} {test : Test} :
    test ∈ condition.testSet ↔ test ∈ condition.tests :=
  List.mem_toFinset

theorem testSet_merge (condition other : Condition) :
    (condition.merge other).testSet = condition.testSet ∪ other.testSet := by
  ext test
  simp [mem_tests_merge]

theorem sameTests_iff {condition other : Condition} :
    condition.sameTests other = true ↔ condition.testSet = other.testSet := by
  rw [Finset.ext_iff, sameTests, Bool.and_eq_true, List.all_eq_true, List.all_eq_true]
  simp only [contains, List.contains_eq_mem, decide_eq_true_eq, mem_testSet]
  exact ⟨fun h test => ⟨h.1 test, h.2 test⟩,
    fun h => ⟨fun test => (h test).1, fun test => (h test).2⟩⟩

end Condition

namespace Alternatives

@[simp] theorem mem_testSet {alternatives : Alternatives} {test : Test} :
    test ∈ alternatives.testSet ↔ test ∈ alternatives.tests :=
  List.mem_toFinset

theorem testSet_eq_biUnion (alternatives : Alternatives) :
    alternatives.testSet = (alternatives.map Condition.testSet).toFinset.biUnion id := by
  ext test
  simp [mem_tests]

end Alternatives

/-! ## Tests are conserved -/

namespace CombineMode

variable {mode : CombineMode}

theorem testSet_combine (left right : Alternatives) :
    (mode.combine left right).testSet = left.testSet ∪ right.testSet := by
  ext test
  simp [mem_tests_combine]

theorem testSet_negate (alternatives : Alternatives) :
    (mode.negate alternatives).testSet = alternatives.testSet.image Test.negate := by
  ext test
  rw [Alternatives.mem_testSet, mem_tests_negate, Finset.mem_image]
  constructor
  · intro h
    exact ⟨test.negate, Alternatives.mem_testSet.2 h, test.negate_negate⟩
  · rintro ⟨other, hother, rfl⟩
    rw [other.negate_negate]
    exact Alternatives.mem_testSet.1 hother

theorem testSet_flatten (entries : List Alternatives) :
    (mode.flatten entries).testSet = entries.toFinset.biUnion Alternatives.testSet := by
  ext test
  simp [mem_tests_flatten]

/-- In either mode conjunctions have the tests of all their parts and no others, and negations the
negated tests, so that a second negation, of whatever mode, brings the tests back. -/
theorem conserves_tests (mode : CombineMode) :
    (∀ left right, (mode.combine left right).testSet = left.testSet ∪ right.testSet) ∧
    (∀ alternatives, (mode.negate alternatives).testSet =
      alternatives.testSet.image Test.negate) ∧
    (∀ (other : CombineMode) (alternatives : Alternatives),
      (other.negate (mode.negate alternatives)).testSet = alternatives.testSet) ∧
    ∀ entries, (mode.flatten entries).testSet = entries.toFinset.biUnion Alternatives.testSet := by
  refine ⟨testSet_combine, testSet_negate, fun other alternatives => ?_, testSet_flatten⟩
  have htwice : Test.negate ∘ Test.negate = id := funext Test.negate_negate
  calc (other.negate (mode.negate alternatives)).testSet
      = (alternatives.testSet.image Test.negate).image Test.negate := by
        rw [testSet_negate, testSet_negate]
    _ = alternatives.testSet.image (Test.negate ∘ Test.negate) := Finset.image_image
    _ = alternatives.testSet := by rw [htwice, Finset.image_id]

/-! ## Conjunctions, condition by condition -/

theorem testSets_combine_merge {left : Alternatives} (hleft : left ≠ []) (right : Alternatives) :
    (merge.combine left right).map Condition.testSet =
      left.map fun l => l.testSet ∪ right.testSet := by
  rcases eq_or_ne right [] with rfl | hright
  · rw [combine_nil_right]
    exact List.map_congr_left fun l _ => (Finset.union_empty _).symm
  · rw [combine_merge_cons hleft hright, List.map_map]
    refine List.map_congr_left fun l _ => ?_
    ext test
    simp [Condition.mem_tests_foldl_merge, Condition.empty, hright, Alternatives.mem_tests]

theorem testSets_combine_distribute {left right : Alternatives} (hleft : left ≠ [])
    (hright : right ≠ []) :
    (distribute.combine left right).map Condition.testSet =
      left.flatMap fun l => (right.map Condition.testSet).map (l.testSet ∪ ·) := by
  simp only [combine_distribute_cons hleft hright, List.map_flatMap, List.map_map,
    Function.comp_def, Condition.testSet_merge]

end CombineMode

/-! ## The monoid of outlines -/

/-- The sets of tests of some conditions, in order, under the conjunction of a mode. -/
@[ext]
structure Outline (mode : CombineMode) where
  sets : List (Finset Test)
  deriving DecidableEq

namespace Outline

variable {mode : CombineMode}

/-- The sets of a conjunction in which neither side is without constraint. -/
def product : CombineMode → List (Finset Test) → List (Finset Test) → List (Finset Test)
  | .merge, left, right => left.map (· ∪ right.toFinset.biUnion id)
  | .distribute, left, right => left.flatMap fun l => right.map (l ∪ ·)

instance : One (Outline mode) := ⟨⟨[]⟩⟩

instance : Mul (Outline mode) where
  mul left right :=
    if left = 1 then right
    else if right = 1 then left
    else ⟨product mode left.sets right.sets⟩

theorem product_ne_nil {left right : List (Finset Test)} (hleft : left ≠ []) (hright : right ≠ []) :
    product mode left right ≠ [] := by
  cases mode with
  | merge => simpa [product] using hleft
  | distribute =>
      obtain ⟨l, hl⟩ := List.exists_mem_of_ne_nil left hleft
      obtain ⟨r, hr⟩ := List.exists_mem_of_ne_nil right hright
      exact List.ne_nil_of_mem (List.mem_flatMap.2 ⟨l, hl, List.mem_map_of_mem hr⟩)

/-- The tests of the last side reach every set of the middle one, if there is any. -/
theorem biUnion_product_merge {middle : List (Finset Test)} (h : middle ≠ [])
    (right : List (Finset Test)) :
    (product .merge middle right).toFinset.biUnion id =
      middle.toFinset.biUnion id ∪ right.toFinset.biUnion id := by
  obtain ⟨m, hm⟩ := List.exists_mem_of_ne_nil middle h
  ext test
  simp only [product, Finset.mem_biUnion, List.mem_toFinset, List.mem_map, id, Finset.mem_union,
    exists_exists_and_eq_and]
  constructor
  · rintro ⟨set, hset, ht | ht⟩
    · exact .inl ⟨set, hset, ht⟩
    · exact .inr ht
  · rintro (⟨set, hset, ht⟩ | ht)
    · exact ⟨set, hset, .inl ht⟩
    · exact ⟨m, hm, .inr ht⟩

theorem product_assoc {left middle right : List (Finset Test)} (hmiddle : middle ≠ []) :
    product mode (product mode left middle) right =
      product mode left (product mode middle right) := by
  cases mode with
  | merge =>
      have hunion := biUnion_product_merge hmiddle right
      simp only [product, List.map_map] at hunion ⊢
      simp only [hunion, Function.comp_def, Finset.union_assoc]
  | distribute =>
      simp only [product, List.flatMap_assoc, List.flatMap_map, List.map_flatMap, List.map_map,
        Function.comp_def, Finset.union_assoc]

instance : MulOneClass (Outline mode) where
  one_mul outline := if_pos rfl
  mul_one outline := by
    by_cases h : outline = 1
    · exact (if_pos h).trans h.symm
    · exact (if_neg h).trans (if_pos rfl)

theorem mul_of_ne_one {left right : Outline mode} (hleft : left ≠ 1) (hright : right ≠ 1) :
    left * right = ⟨product mode left.sets right.sets⟩ :=
  (if_neg hleft).trans (if_neg hright)

theorem mul_ne_one {left right : Outline mode} (hleft : left ≠ 1) (hright : right ≠ 1) :
    left * right ≠ 1 := by
  rw [mul_of_ne_one hleft hright]
  intro h
  refine product_ne_nil (fun hnil => hleft ?_) (fun hnil => hright ?_) (congrArg sets h)
  · exact Outline.ext hnil
  · exact Outline.ext hnil

instance : Monoid (Outline mode) where
  one_mul := one_mul
  mul_one := mul_one
  mul_assoc left middle right := by
    by_cases hleft : left = 1
    · rw [hleft, one_mul, one_mul]
    by_cases hmiddle : middle = 1
    · rw [hmiddle, mul_one, one_mul]
    by_cases hright : right = 1
    · rw [hright, mul_one, mul_one]
    rw [mul_of_ne_one (mul_ne_one hleft hmiddle) hright, mul_of_ne_one hleft hmiddle,
      mul_of_ne_one hleft (mul_ne_one hmiddle hright), mul_of_ne_one hmiddle hright]
    exact congrArg mk (product_assoc fun hnil => hmiddle (Outline.ext hnil))

end Outline

/-! ## The outline of alternatives -/

def CombineMode.outline (mode : CombineMode) (alternatives : Alternatives) : Outline mode :=
  ⟨alternatives.map Condition.testSet⟩

namespace CombineMode

variable {mode : CombineMode}

theorem outline_eq_one {alternatives : Alternatives} :
    mode.outline alternatives = 1 ↔ alternatives = [] := by
  constructor
  · intro h
    exact List.map_eq_nil_iff.1 (congrArg Outline.sets h)
  · rintro rfl
    rfl

theorem outline_combine (left right : Alternatives) :
    mode.outline (mode.combine left right) = mode.outline left * mode.outline right := by
  rcases eq_or_ne left [] with rfl | hleft
  · exact (one_mul _).symm
  rcases eq_or_ne right [] with rfl | hright
  · rw [combine_nil_right]
    exact (mul_one _).symm
  rw [Outline.mul_of_ne_one (mt outline_eq_one.1 hleft) (mt outline_eq_one.1 hright)]
  refine congrArg Outline.mk ?_
  cases mode with
  | merge =>
      rw [testSets_combine_merge hleft, right.testSet_eq_biUnion, Outline.product, outline, outline,
        List.map_map]
      rfl
  | distribute =>
      rw [testSets_combine_distribute hleft hright, Outline.product, outline, outline,
        List.flatMap_map]

theorem outline_flatten (entries : List Alternatives) :
    mode.outline (mode.flatten entries) = (entries.reverse.map mode.outline).prod := by
  induction entries using List.reverseRecOn with
  | nil => rfl
  | append_singleton entries entry ih =>
      rw [flatten_append_singleton, outline_combine, ih]
      simp

end CombineMode

theorem Alternatives.sameTests_iff {left right : Alternatives} :
    left.sameTests right = true ↔
      List.Forall₂ (fun l r => l.testSet = r.testSet) left right := by
  induction left generalizing right with
  | nil => cases right <;> simp [sameTests, List.isEqv]
  | cons l left ih =>
      cases right with
      | nil => simp [sameTests, List.isEqv]
      | cons r right =>
          rw [List.forall₂_cons, ← ih, ← Condition.sameTests_iff]
          simp [sameTests, List.isEqv]

/-- Alternatives have the same tests if they have the same outline, in whatever mode. -/
theorem CombineMode.outline_eq_iff (mode : CombineMode) {left right : Alternatives} :
    mode.outline left = mode.outline right ↔ left.sameTests right = true := by
  rw [Alternatives.sameTests_iff, Outline.ext_iff, outline, outline, ← List.forall₂_eq_eq_eq,
    List.forall₂_map_left_iff, List.forall₂_map_right_iff]

/-- Up to the tests of each condition, alternatives are a monoid under the conjunction of either
mode: conjunctions are associative, "no constraint" is neutral, conditions may be replaced by ones
with the same tests, and guards may be flattened in two parts. -/
theorem CombineMode.combine_monoid (mode : CombineMode) :
    (∀ left right : Alternatives, left.sameTests right = true ↔
      List.Forall₂ (fun l r => l.testSet = r.testSet) left right) ∧
    (∀ a b c : Alternatives,
      (mode.combine (mode.combine a b) c).sameTests (mode.combine a (mode.combine b c)) = true) ∧
    (∀ a, mode.combine [] a = a ∧ mode.combine a [] = a) ∧
    (∀ a a' b b' : Alternatives, a.sameTests a' = true → b.sameTests b' = true →
      (mode.combine a b).sameTests (mode.combine a' b') = true) ∧
    ∀ outer inner : List Alternatives, (mode.flatten (outer ++ inner)).sameTests
      (mode.combine (mode.flatten inner) (mode.flatten outer)) = true := by
  simp only [← mode.outline_eq_iff]
  refine ⟨fun _ _ => mode.outline_eq_iff.trans Alternatives.sameTests_iff, fun a b c => ?_,
    fun a => ⟨combine_nil_left mode a, combine_nil_right mode a⟩, fun a a' b b' ha hb => ?_,
    fun outer inner => ?_⟩
  · simp only [outline_combine, mul_assoc]
  · rw [outline_combine, outline_combine, ha, hb]
  · calc mode.outline (mode.flatten (outer ++ inner))
        = ((outer ++ inner).reverse.map mode.outline).prod := outline_flatten _
      _ = (inner.reverse.map mode.outline).prod * (outer.reverse.map mode.outline).prod := by
          rw [List.reverse_append, List.map_append, List.prod_append]
      _ = mode.outline (mode.flatten inner) * mode.outline (mode.flatten outer) := by
          rw [outline_flatten, outline_flatten]
      _ = mode.outline (mode.combine (mode.flatten inner) (mode.flatten outer)) :=
          (outline_combine _ _).symm

/-- The order and repetition of tests in a condition show in what is made of it, but not up to the
tests of each condition. -/
theorem CombineMode.combine_monoid_of_reordered :
    let x : Test := ⟨"&X", .eq, "1"⟩
    let y : Test := ⟨"&Y", .gt, "2"⟩
    let z : Test := ⟨"&Z", .eq, "3"⟩
    let a : Alternatives := [⟨[x, y]⟩, .single z]
    let a' : Alternatives := [⟨[y, x, y]⟩, .single z]
    let b : Alternatives := [.single z, .single x]
    a.sameTests a' = true ∧ b.sameTests b = true ∧
      merge.combine a b ≠ merge.combine a' b ∧
      (merge.combine a b).sameTests (merge.combine a' b) = true ∧
      (distribute.combine a b).sameTests (distribute.combine a' b) = true := by
  intro x y z a a' b
  have ha : a.sameTests a' = true := by decide
  have hb : b.sameTests b = true := by decide
  exact ⟨ha, hb, by decide, (merge.combine_monoid).2.2.2.1 a a' b b ha hb,
    (distribute.combine_monoid).2.2.2.1 a a' b b ha hb⟩

end ClassSelection
