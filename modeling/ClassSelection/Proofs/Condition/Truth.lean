import ClassSelection.Proofs.Condition.Tests

/-!
# Conjunctions under truth values

What a set of alternatives says once each test is given a truth value, whatever
values these are.  The distribute mode forms exact conjunctions; what the merge
mode forms is true only where both sides are.  The two differ in nothing as long
as the right side has no second condition to choose.
-/

namespace ClassSelection

def Condition.eval (truth : Test → Bool) (condition : Condition) : Bool :=
  condition.tests.all truth

/-- Alternatives are true if one of them is, or if there is no constraint at all. -/
def Alternatives.eval (truth : Test → Bool) (alternatives : Alternatives) : Bool :=
  alternatives.isEmpty || alternatives.any (Condition.eval truth)

variable {truth : Test → Bool}

namespace Condition

theorem eval_iff {condition : Condition} :
    condition.eval truth = true ↔ ∀ test ∈ condition.tests, truth test = true := by
  simp [eval]

theorem eval_merge (condition other : Condition) :
    (condition.merge other).eval truth = (condition.eval truth && other.eval truth) := by
  rw [Bool.eq_iff_iff, Bool.and_eq_true]
  simp only [eval_iff, mem_tests_merge, or_imp, forall_and]

theorem eval_mono {condition other : Condition} (hsub : other.tests ⊆ condition.tests)
    (h : condition.eval truth = true) : other.eval truth = true :=
  eval_iff.2 fun test ht => eval_iff.1 h test (hsub ht)

end Condition

namespace Alternatives

@[simp] theorem eval_nil : eval truth [] = true := rfl

theorem eval_of_ne_nil {alternatives : Alternatives} (h : alternatives ≠ []) :
    alternatives.eval truth = alternatives.any (Condition.eval truth) := by
  simp [eval, h]

theorem eval_append {left right : Alternatives} (hleft : left ≠ []) (hright : right ≠ []) :
    eval truth (left ++ right) = (left.eval truth || right.eval truth) := by
  rw [eval_of_ne_nil (by simp [hleft]), eval_of_ne_nil hleft, eval_of_ne_nil hright,
    List.any_append]

end Alternatives

namespace CombineMode

open Alternatives (eval_of_ne_nil)

theorem eval_of_combine {mode : CombineMode} {left right : Alternatives}
    (h : (mode.combine left right).eval truth = true) :
    left.eval truth = true ∧ right.eval truth = true := by
  rcases eq_or_ne left [] with rfl | hleft
  · exact ⟨rfl, by simpa using h⟩
  rcases eq_or_ne right [] with rfl | hright
  · exact ⟨by simpa using h, rfl⟩
  have hne : mode.combine left right ≠ [] := fun hnil => hleft (combine_eq_nil.1 hnil).1
  rw [eval_of_ne_nil hne, List.any_eq_true] at h
  obtain ⟨condition, hmem, htrue⟩ := h
  obtain ⟨l, hl, r, hr, hsubl, hsubr⟩ := exists_of_mem_combine hleft hright hmem
  rw [eval_of_ne_nil hleft, eval_of_ne_nil hright, List.any_eq_true, List.any_eq_true]
  exact ⟨⟨l, hl, Condition.eval_mono hsubl htrue⟩, ⟨r, hr, Condition.eval_mono hsubr htrue⟩⟩

theorem eval_combine_distribute (left right : Alternatives) :
    (distribute.combine left right).eval truth = (left.eval truth && right.eval truth) := by
  rw [Bool.eq_iff_iff, Bool.and_eq_true]
  refine ⟨eval_of_combine, fun ⟨hl, hr⟩ => ?_⟩
  rcases eq_or_ne left [] with rfl | hleft
  · simpa using hr
  rcases eq_or_ne right [] with rfl | hright
  · simpa using hl
  have hne : distribute.combine left right ≠ [] := fun hnil => hleft (combine_eq_nil.1 hnil).1
  rw [eval_of_ne_nil hleft, List.any_eq_true] at hl
  rw [eval_of_ne_nil hright, List.any_eq_true] at hr
  obtain ⟨l, hlmem, hltrue⟩ := hl
  obtain ⟨r, hrmem, hrtrue⟩ := hr
  rw [eval_of_ne_nil hne, List.any_eq_true]
  refine ⟨l.merge r, ?_, by rw [Condition.eval_merge, hltrue, hrtrue]; rfl⟩
  rw [combine_distribute_cons hleft hright, List.mem_flatMap]
  exact ⟨l, hlmem, List.mem_map.2 ⟨r, hrmem, rfl⟩⟩

theorem eval_combine_merge_singleton {left : Alternatives} (hleft : left ≠ []) (r : Condition) :
    (merge.combine left [r]).eval truth = (left.eval truth && r.eval truth) := by
  have hmerge (l : Condition) :
      ((Condition.empty.merge l).merge r).eval truth = (l.eval truth && r.eval truth) := by
    rw [Condition.eval_merge, Condition.eval_merge]
    rfl
  have hne : merge.combine left [r] ≠ [] := fun hnil => hleft (combine_eq_nil.1 hnil).1
  rw [eval_of_ne_nil hne, eval_of_ne_nil hleft,
    combine_merge_cons hleft (List.cons_ne_nil r []), List.any_map, List.and_any_distrib_right]
  congr 1
  funext l
  exact hmerge l

theorem eval_of_flatten {mode : CombineMode} {entries : List Alternatives}
    (h : (mode.flatten entries).eval truth = true) :
    ∀ entry ∈ entries, entry.eval truth = true := by
  induction entries using List.reverseRecOn with
  | nil => simp
  | append_singleton entries entry ih =>
      rw [flatten_append_singleton] at h
      obtain ⟨hentry, hrest⟩ := eval_of_combine h
      intro other hother
      rcases List.mem_append.1 hother with hmem | hmem
      · exact ih hrest other hmem
      · rwa [List.mem_singleton.1 hmem]

theorem eval_flatten_distribute (entries : List Alternatives) :
    (distribute.flatten entries).eval truth = entries.all (Alternatives.eval truth) := by
  induction entries using List.reverseRecOn with
  | nil => rfl
  | append_singleton entries entry ih =>
      rw [flatten_append_singleton, eval_combine_distribute, ih, List.all_append]
      simp [Bool.and_comm]

end CombineMode

/-! ## Where the modes agree -/

theorem Condition.merge_of_nodup {condition other : Condition}
    (h : (condition.tests ++ other.tests).Nodup) :
    condition.merge other = ⟨condition.tests ++ other.tests⟩ := by
  obtain ⟨tests⟩ := other
  unfold merge
  induction tests generalizing condition with
  | nil => simp
  | cons test tests ih =>
      rw [List.append_cons] at h
      have hnew : test ∉ condition.tests := by
        intro hmem
        have hdisjoint := (List.nodup_append.1 (List.nodup_append.1 h).1).2.2
        exact hdisjoint test hmem test List.mem_cons_self rfl
      have hinsert : condition.insert test = ⟨condition.tests ++ [test]⟩ := by
        rw [insert, if_neg (by simpa [contains] using hnew), push]
      rw [List.foldl_cons, hinsert, ih h]
      simp

namespace CombineMode

theorem merge_combine_eq_distribute {left right : Alternatives} (hright : right.length ≤ 1)
    (hleft : ∀ condition ∈ left, condition.tests.Nodup) :
    merge.combine left right = distribute.combine left right := by
  rcases eq_or_ne left [] with rfl | hne
  · rfl
  match right with
  | [] => rw [combine_nil_right, combine_nil_right]
  | [r] =>
      rw [combine_merge_cons hne (List.cons_ne_nil r []),
        combine_distribute_cons hne (List.cons_ne_nil r [])]
      have hempty : ∀ l ∈ left, (Condition.empty.merge l).merge r = l.merge r := by
        intro l hl
        have hcopy : Condition.empty.merge l = l := Condition.merge_of_nodup (hleft l hl)
        rw [hcopy]
      simp only [List.foldl_cons, List.foldl_nil, List.map_cons, List.map_nil]
      rw [List.map_congr_left hempty, List.map_eq_flatMap]
  | _ :: _ :: _ => simp at hright

/-- The conjunctions of both modes against the logical AND, under any truth values: distributing is
exact, merging is sound, and they make the same of one alternative on the right. -/
theorem eval_conjunctions (truth : Test → Bool) :
    (∀ left right, (distribute.combine left right).eval truth =
      (left.eval truth && right.eval truth)) ∧
    (∀ left right, (merge.combine left right).eval truth = true →
      left.eval truth = true ∧ right.eval truth = true) ∧
    (∀ left right, right.length ≤ 1 → (∀ condition ∈ left, condition.tests.Nodup) →
      merge.combine left right = distribute.combine left right) ∧
    (∀ entries, (distribute.flatten entries).eval truth =
      entries.all (Alternatives.eval truth)) ∧
    ∀ entries, (merge.flatten entries).eval truth = true →
      ∀ entry ∈ entries, Alternatives.eval truth entry = true :=
  ⟨eval_combine_distribute, fun _ _ => eval_of_combine,
    fun _ _ => merge_combine_eq_distribute, eval_flatten_distribute, fun _ => eval_of_flatten⟩

/-- Of two alternatives on the right, merging asks for both and distributing for one of them; with
one of them alone on the right the results are the same. -/
theorem eval_conjunctions_of_choice :
    let a : Test := ⟨"&A", .eq, "1"⟩
    let b : Test := ⟨"&B", .eq, "2"⟩
    let c : Test := ⟨"&C", .eq, "3"⟩
    let truth := fun test => test == a || test == b
    (distribute.combine [.single a] [.single b, .single c]).eval truth = true ∧
      (merge.combine [.single a] [.single b, .single c]).eval truth = false ∧
      merge.combine [.single a] [.single b] = distribute.combine [.single a] [.single b] ∧
      (distribute.flatten [[], [.single a], [.empty]]).eval truth = true := by
  intro a b c truth
  obtain ⟨hexact, -, hsame, hflatten, -⟩ := eval_conjunctions truth
  refine ⟨?_, by decide, hsame _ _ (by decide) (by decide), ?_⟩
  · rw [hexact]
    decide
  · rw [hflatten]
    decide

end CombineMode

end ClassSelection
