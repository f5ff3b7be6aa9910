import ClassSelection.Proofs.Condition.Valuation

/-!
# Negations

A negation is a conjunction of negated conditions, each with the negations of its
tests as alternatives.  So it inherits what `Valuation` says about conjunctions:
the distribute mode is exact, the merge mode one-sided.  The modes differ only
where a condition that is not the last one has several tests, since only then
there is a choice on the right of a conjunction.
-/

namespace ClassSelection

theorem Condition.exists_of_mem_negate {condition negated : Condition}
    (h : negated ∈ condition.negate) : ∃ test ∈ condition.tests, negated = single test.negate := by
  obtain ⟨test, htest, rfl⟩ := List.mem_map.1 h
  exact ⟨test, htest, rfl⟩

@[simp] theorem Condition.length_negate (condition : Condition) :
    condition.negate.length = condition.tests.length :=
  List.length_map _

namespace CombineMode

variable {mode : CombineMode}

theorem tests_ne_nil_of_mem_negate {alternatives : Alternatives} {condition : Condition}
    (h : condition ∈ mode.negate alternatives) : condition.tests ≠ [] := by
  induction alternatives using List.reverseRecOn generalizing condition with
  | nil => cases h
  | append_singleton alternatives last ih =>
      have hlast : ∀ negated ∈ last.negate, negated.tests ≠ [] := by
        intro negated hnegated
        obtain ⟨test, -, rfl⟩ := Condition.exists_of_mem_negate hnegated
        exact List.cons_ne_nil _ _
      rw [negate_append_singleton] at h
      rcases eq_or_ne last.negate [] with hnil | hne
      · rw [hnil, combine_nil_left] at h
        exact ih h
      rcases eq_or_ne (mode.negate alternatives) [] with hnil | hrest
      · rw [hnil, combine_nil_right] at h
        exact hlast condition h
      obtain ⟨left, hleft, -, -, hsub, -⟩ := exists_of_mem_combine hne hrest h
      obtain ⟨test, htest⟩ := List.exists_mem_of_ne_nil _ (hlast left hleft)
      exact List.ne_nil_of_mem (hsub htest)

theorem proper_negate {alternatives : Alternatives} (h : alternatives.Proper) :
    (mode.negate alternatives).Proper :=
  ⟨negate_ne_nil h, fun _ => tests_ne_nil_of_mem_negate⟩

/-! ## Where the modes agree -/

/-- Negating a condition in front of at most one alternative is the same in both modes. -/
theorem merge_combine_negate_eq_distribute (condition : Condition) {right : Alternatives}
    (h : right.length ≤ 1) :
    merge.combine condition.negate right = distribute.combine condition.negate right := by
  refine merge_combine_eq_distribute h fun negated hnegated => ?_
  obtain ⟨test, -, rfl⟩ := Condition.exists_of_mem_negate hnegated
  simp [Condition.single]

theorem length_combine_distribute_le_one {left right : Alternatives} (hleft : left.length ≤ 1)
    (hright : right.length ≤ 1) : (distribute.combine left right).length ≤ 1 := by
  rcases eq_or_ne left [] with rfl | hl
  · simpa using hright
  rcases eq_or_ne right [] with rfl | hr
  · simpa using hleft
  rw [length_combine_distribute hl hr]
  exact Nat.mul_le_mul hleft hright

/-- Conditions of one test each have a negation without a choice, which both modes find. -/
theorem merge_negate_eq_distribute_of_single {alternatives : Alternatives}
    (h : ∀ condition ∈ alternatives, condition.tests.length = 1) :
    merge.negate alternatives = distribute.negate alternatives ∧
      (distribute.negate alternatives).length ≤ 1 := by
  induction alternatives using List.reverseRecOn with
  | nil => exact ⟨rfl, Nat.zero_le 1⟩
  | append_singleton alternatives last ih =>
      obtain ⟨hsame, hlength⟩ := ih fun condition hcondition =>
        h condition (List.mem_append_left _ hcondition)
      have hlast : last.negate.length ≤ 1 :=
        Nat.le_of_eq (last.length_negate.trans (h last (by simp)))
      rw [negate_append_singleton, negate_append_singleton, hsame]
      exact ⟨merge_combine_negate_eq_distribute last hlength,
        length_combine_distribute_le_one hlast hlength⟩

theorem merge_negate_eq_distribute {alternatives : Alternatives}
    (h : ∀ condition ∈ alternatives.dropLast, condition.tests.length = 1) :
    merge.negate alternatives = distribute.negate alternatives := by
  rcases List.eq_nil_or_concat' alternatives with rfl | ⟨earlier, last, rfl⟩
  · rfl
  · rw [List.dropLast_concat] at h
    obtain ⟨hsame, hlength⟩ := merge_negate_eq_distribute_of_single h
    rw [negate_append_singleton, negate_append_singleton, hsame]
    exact merge_combine_negate_eq_distribute last hlength

/-! ## Against the logical NOT -/

/-- The negations of both modes against the logical NOT, for a guard that rules something out:
distributing is exact, merging is sound, a guard and its negation exclude each other, the negation
rules something out again, and the modes make the same of it unless some condition before the last
one has several tests. -/
theorem negate_complements {alternatives : Alternatives} (h : alternatives.Proper) :
    (∀ v : Valuation, v.meets (distribute.negate alternatives) = !v.meets alternatives) ∧
    (∀ v : Valuation, v.meets (merge.negate alternatives) = true →
      v.meets alternatives = false) ∧
    (∀ (mode : CombineMode) (v : Valuation),
      ¬(v.meets alternatives = true ∧ v.meets (mode.negate alternatives) = true)) ∧
    (∀ mode : CombineMode, (mode.negate alternatives).Proper) ∧
    ((∀ condition ∈ alternatives.dropLast, condition.tests.length = 1) →
      merge.negate alternatives = distribute.negate alternatives) := by
  refine ⟨fun v => v.meets_negate_distribute h, fun v => v.meets_negate h, ?_,
    fun _ => proper_negate h, merge_negate_eq_distribute⟩
  rintro mode v ⟨hmeets, hnegation⟩
  rw [v.meets_negate h hnegation] at hmeets
  exact Bool.false_ne_true hmeets

end CombineMode

def Valuation.ofValues (value : String → String) : Valuation where
  holds test :=
    match test.comparator with
    | .eq => value test.subject == test.value
    | .ne => !(value test.subject == test.value)
    | .lt => value test.subject < test.value
    | .ge => !decide (value test.subject < test.value)
    | .gt => test.value < value test.subject
    | .le => !decide (test.value < value test.subject)
  holds_negate test := by
    obtain ⟨subject, comparator, text⟩ := test
    cases comparator with
    | eq | lt | gt => rfl
    | ne | ge | le => exact (Bool.not_not _).symm

/-- With the condition of two tests last, the modes make the same negation.  With it first, merging
asks for the negations of both its tests, and misses the case in which only one of them fails. -/
theorem CombineMode.negate_complements_of_pair :
    let single : Condition := .single ⟨"&A", .eq, "1"⟩
    let pair : Condition := ⟨[⟨"&B", .eq, "2"⟩, ⟨"&C", .eq, "3"⟩]⟩
    let v : Valuation := .ofValues fun subject => if subject = "&C" then "3" else "0"
    Alternatives.Proper [single, pair] ∧ Alternatives.Proper [pair, single] ∧
      merge.negate [single, pair] = distribute.negate [single, pair] ∧
      v.meets (merge.negate [single, pair]) = true ∧ v.meets [single, pair] = false ∧
      (merge.negate [single, pair]).Proper ∧
      v.meets (distribute.negate [pair, single]) = true ∧
      v.meets (merge.negate [pair, single]) = false := by
  intro single pair v
  have htests : single.tests ≠ [] ∧ pair.tests ≠ [] :=
    ⟨List.cons_ne_nil _ _, List.cons_ne_nil _ _⟩
  have hlast : Alternatives.Proper [single, pair] := ⟨List.cons_ne_nil _ _, by simp [htests]⟩
  have hfirst : Alternatives.Proper [pair, single] := ⟨List.cons_ne_nil _ _, by simp [htests]⟩
  obtain ⟨-, hsound, -, hproper, hsame⟩ := negate_complements hlast
  have hmeets : v.meets (merge.negate [single, pair]) = true := by decide +kernel
  refine ⟨hlast, hfirst, hsame (by simp [single, Condition.single]), hmeets, hsound v hmeets,
    hproper merge, ?_, by decide +kernel⟩
  rw [(negate_complements hfirst).1]
  decide +kernel

end ClassSelection
