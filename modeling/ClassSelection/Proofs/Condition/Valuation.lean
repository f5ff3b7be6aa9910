import ClassSelection.Proofs.Condition.Truth

/-!
# Valuations

What a set of alternatives says once every test is true or false, and its
negation the opposite.  Conjunctions are those of `Condition.Truth`, where the
values need not be consistent.  The distribute mode is an exact conjunction and
negation (`meets_flatten_distribute`, `meets_negate_distribute`).  The merge mode
is one-sided: what it lets through is let through by every part
(`meets_of_flatten`), which is enough for a guard and its negation to exclude
each other (`meets_negate`).  It loses some guards that hold (`Loses`), but none
whose ANDs have single alternatives on their right.
-/

namespace ClassSelection

/-- A truth value for each test, such that a test and its negation have opposite ones. -/
structure Valuation where
  holds : Test → Bool
  holds_negate : ∀ test, holds test.negate = !holds test

namespace Valuation

variable (v : Valuation)

def satisfies (condition : Condition) : Bool :=
  condition.tests.all v.holds

/-- Alternatives are met if one of them holds, or if there is no constraint at all. -/
def meets (alternatives : Alternatives) : Bool :=
  alternatives.isEmpty || alternatives.any v.satisfies

def holdsExpr : Expr → Bool
  | .test t => v.holds t
  | .both left right => holdsExpr left && holdsExpr right
  | .either left right => holdsExpr left || holdsExpr right

@[simp] theorem meets_nil : v.meets [] = true := rfl

theorem meets_of_ne_nil {alternatives : Alternatives} (h : alternatives ≠ []) :
    v.meets alternatives = alternatives.any v.satisfies :=
  Alternatives.eval_of_ne_nil h

theorem meets_append {left right : Alternatives} (hleft : left ≠ []) (hright : right ≠ []) :
    v.meets (left ++ right) = (v.meets left || v.meets right) :=
  Alternatives.eval_append hleft hright

theorem meets_single (test : Test) : v.meets [.single test] = v.holds test := by
  simp [meets, satisfies, Condition.single]

/-! ## Conjunction -/

theorem meets_of_combine {mode : CombineMode} {left right : Alternatives}
    (h : v.meets (mode.combine left right) = true) :
    v.meets left = true ∧ v.meets right = true :=
  CombineMode.eval_of_combine h

/-- The conjunction of the distribute mode is exact. -/
theorem meets_combine_distribute (left right : Alternatives) :
    v.meets (CombineMode.distribute.combine left right) = (v.meets left && v.meets right) :=
  CombineMode.eval_combine_distribute left right

theorem meets_of_flatten {mode : CombineMode} {entries : List Alternatives}
    (h : v.meets (mode.flatten entries) = true) : ∀ entry ∈ entries, v.meets entry = true :=
  CombineMode.eval_of_flatten h

theorem meets_flatten_distribute (entries : List Alternatives) :
    v.meets (CombineMode.distribute.flatten entries) = entries.all v.meets :=
  CombineMode.eval_flatten_distribute entries

/-! ## Negation -/

theorem meets_negate_condition {condition : Condition} (h : condition.tests ≠ []) :
    v.meets condition.negate = !v.satisfies condition := by
  have hne : condition.negate ≠ [] := by simp [Condition.negate, h]
  rw [v.meets_of_ne_nil hne, Condition.negate, List.any_map, satisfies, List.not_all_eq_any_not]
  congr 1
  funext test
  simp [satisfies, Condition.single, v.holds_negate]

private theorem meets_of_foldl_negate {mode : CombineMode} {alternatives result : Alternatives}
    (hproper : ∀ c ∈ alternatives, c.tests ≠ [])
    (h : v.meets
      (alternatives.foldl (fun result c => mode.combine c.negate result) result) = true) :
    v.meets result = true ∧ ∀ c ∈ alternatives, v.satisfies c = false := by
  induction alternatives generalizing result with
  | nil => exact ⟨h, by simp⟩
  | cons first alternatives ih =>
      rw [List.foldl_cons] at h
      obtain ⟨hcombined, hrest⟩ := ih (fun c hc => hproper c (List.mem_cons_of_mem _ hc)) h
      obtain ⟨hfirst, hresult⟩ := v.meets_of_combine hcombined
      rw [v.meets_negate_condition (hproper first List.mem_cons_self), Bool.not_eq_true'] at hfirst
      refine ⟨hresult, fun c hc => ?_⟩
      rcases List.mem_cons.1 hc with rfl | hc
      · exact hfirst
      · exact hrest c hc

/-- A guard and its negation exclude each other, in either mode. -/
theorem meets_negate {mode : CombineMode} {alternatives : Alternatives}
    (hproper : alternatives.Proper) (h : v.meets (mode.negate alternatives) = true) :
    v.meets alternatives = false := by
  rw [v.meets_of_ne_nil hproper.ne_nil, List.any_eq_false]
  intro c hc
  simp [(v.meets_of_foldl_negate hproper.tests_ne_nil h).2 c hc]

private theorem meets_foldl_negate_distribute {alternatives result : Alternatives}
    (hproper : ∀ c ∈ alternatives, c.tests ≠ []) :
    v.meets (alternatives.foldl
        (fun result c => CombineMode.distribute.combine c.negate result) result) =
      (v.meets result && alternatives.all fun c => !v.satisfies c) := by
  induction alternatives generalizing result with
  | nil => simp
  | cons first alternatives ih =>
      rw [List.foldl_cons, ih fun c hc => hproper c (List.mem_cons_of_mem _ hc),
        meets_combine_distribute, v.meets_negate_condition (hproper first List.mem_cons_self),
        List.all_cons, Bool.and_comm (!v.satisfies first), Bool.and_assoc]

theorem meets_negate_distribute {alternatives : Alternatives} (hproper : alternatives.Proper) :
    v.meets (CombineMode.distribute.negate alternatives) = !v.meets alternatives := by
  rw [CombineMode.negate, v.meets_foldl_negate_distribute hproper.tests_ne_nil,
    v.meets_of_ne_nil hproper.ne_nil, List.not_any_eq_all_not]
  simp

/-- Under the guard of an OTHERWISE no branch is taken, in either mode. -/
theorem meets_noneOf {mode : CombineMode} {branches : List Alternatives}
    (hproper : ∀ branch ∈ branches, branch.Proper) (h : v.meets (mode.noneOf branches) = true) :
    ∀ branch ∈ branches, v.meets branch = false := by
  induction branches using List.reverseRecOn with
  | nil => simp
  | append_singleton branches branch ih =>
      rw [CombineMode.noneOf_append_singleton] at h
      obtain ⟨hrest, hbranch⟩ := v.meets_of_combine h
      intro other hother
      rcases List.mem_append.1 hother with hmem | hmem
      · exact ih (fun b hb => hproper b (List.mem_append_left _ hb)) hrest other hmem
      · rw [List.mem_singleton.1 hmem]
        exact v.meets_negate (hproper branch (by simp)) hbranch

theorem meets_noneOf_distribute {branches : List Alternatives}
    (hproper : ∀ branch ∈ branches, branch.Proper) :
    v.meets (CombineMode.distribute.noneOf branches) = branches.all fun b => !v.meets b := by
  induction branches using List.reverseRecOn with
  | nil => rfl
  | append_singleton branches branch ih =>
      rw [CombineMode.noneOf_append_singleton, meets_combine_distribute,
        ih fun b hb => hproper b (List.mem_append_left _ hb),
        v.meets_negate_distribute (hproper branch (by simp)), List.all_append]
      simp

/-! ## Guards -/

theorem meets_alternatives_distribute (expr : Expr) :
    v.meets (expr.alternatives .distribute) = v.holdsExpr expr := by
  induction expr with
  | test t => exact v.meets_single t
  | both left right hleft hright =>
      rw [Expr.alternatives, meets_combine_distribute, hleft, hright, holdsExpr]
  | either left right hleft hright =>
      have hl := (left.proper_alternatives .distribute).ne_nil
      have hr := (right.proper_alternatives .distribute).ne_nil
      rw [Expr.alternatives, v.meets_append hl hr, hleft, hright, holdsExpr]

/-! ## What merging loses -/

/-- Alternatives are met only where their guard holds, in either mode. -/
theorem holdsExpr_of_meets {mode : CombineMode} {expr : Expr}
    (h : v.meets (expr.alternatives mode) = true) : v.holdsExpr expr = true := by
  induction expr with
  | test t => exact (v.meets_single t).symm.trans h
  | both left right hleft hright =>
      obtain ⟨hl, hr⟩ := v.meets_of_combine h
      rw [holdsExpr, hleft hl, hright hr, Bool.and_self]
  | either left right hleft hright =>
      have hl := (left.proper_alternatives mode).ne_nil
      have hr := (right.proper_alternatives mode).ne_nil
      rw [Expr.alternatives, v.meets_append hl hr, Bool.or_eq_true] at h
      rw [holdsExpr, Bool.or_eq_true]
      exact h.imp hleft hright

/-- The guard holds, but none of the alternatives that merging makes of it does. -/
def Loses (guard : Expr) : Prop :=
  v.holdsExpr guard = true ∧ v.meets (guard.alternatives .merge) = false

/-- Where a guard is negated, it fails unless merging has lost it. -/
theorem holdsExpr_eq_false_iff {guard : Expr}
    (h : v.meets (guard.alternatives .merge) = false) :
    v.holdsExpr guard = false ↔ ¬v.Loses guard := by
  simp [Loses, h]

end Valuation

namespace Expr

def width : Expr → Nat
  | test _ => 1
  | both left _ => left.width
  | either left right => left.width + right.width

/-- Every AND in the guard has a single alternative on its right. -/
def MergesExactly : Expr → Prop
  | test _ => True
  | both left right => left.MergesExactly ∧ right.MergesExactly ∧ right.width = 1
  | either left right => left.MergesExactly ∧ right.MergesExactly

theorem length_alternatives_merge (expr : Expr) :
    (expr.alternatives .merge).length = expr.width := by
  induction expr with
  | test t => rfl
  | both left right hleft _ =>
      have hl := (left.proper_alternatives .merge).ne_nil
      rw [alternatives, CombineMode.length_combine_merge hl, hleft, width]
  | either left right hleft hright => rw [alternatives, List.length_append, hleft, hright, width]

end Expr

namespace Valuation

variable (v : Valuation)

theorem meets_combine_merge_singleton {left : Alternatives} (hleft : left ≠ []) (r : Condition) :
    v.meets (CombineMode.merge.combine left [r]) = (v.meets left && v.satisfies r) :=
  CombineMode.eval_combine_merge_singleton hleft r

theorem meets_alternatives_merge {expr : Expr} (h : expr.MergesExactly) :
    v.meets (expr.alternatives .merge) = v.holdsExpr expr := by
  induction expr with
  | test t => exact v.meets_single t
  | both left right hleft hright =>
      obtain ⟨hl, hr, hwidth⟩ := h
      rw [← right.length_alternatives_merge] at hwidth
      obtain ⟨r, hsingle⟩ := List.length_eq_one_iff.1 hwidth
      have hr := hright hr
      rw [hsingle, v.meets_of_ne_nil (List.cons_ne_nil r []), List.any_cons, List.any_nil,
        Bool.or_false] at hr
      rw [Expr.alternatives, hsingle,
        v.meets_combine_merge_singleton (left.proper_alternatives .merge).ne_nil, hleft hl, hr,
        holdsExpr]
  | either left right hleft hright =>
      have hl := (left.proper_alternatives .merge).ne_nil
      have hr := (right.proper_alternatives .merge).ne_nil
      rw [Expr.alternatives, v.meets_append hl hr, hleft h.1, hright h.2, holdsExpr]

/-- A guard in which every AND has a single alternative on its right is never lost. -/
theorem not_loses_of_mergesExactly {guard : Expr} (h : guard.MergesExactly) : ¬v.Loses guard := by
  rintro ⟨hholds, hmeets⟩
  rw [v.meets_alternatives_merge h, hholds] at hmeets
  cases hmeets

end Valuation

end ClassSelection
