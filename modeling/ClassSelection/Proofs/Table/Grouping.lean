import ClassSelection.Proofs.Table.Emission
import Mathlib.Data.List.Forall2

/-!
# The combine mode only groups tests

Two unfoldings of one routine, one in each mode, run in step: guards, scopes
and rules differ at most in how the same tests are grouped into conditions.
The reader does not know the mode, so a whole source text has the same errors.
-/

namespace ClassSelection

/-- Alternatives with the same tests, which both are or are not a constraint. -/
structure Alternatives.Alike (left right : Alternatives) : Prop where
  nil_iff : left = [] ↔ right = []
  mem_tests_iff : ∀ test, test ∈ left.tests ↔ test ∈ right.tests

structure Rule.SameUpToGrouping (left right : Rule) : Prop where
  target : left.target = right.target
  sequence : left.sequence = right.sequence
  line : left.line = right.line
  hasExit : left.hasExit = right.hasExit
  alternatives : left.alternatives.Alike right.alternatives

structure DecisionTable.SameUpToGrouping (left right : DecisionTable) : Prop where
  kind : left.kind = right.kind
  registry : left.registry = right.registry
  rules : List.Forall₂ Rule.SameUpToGrouping left.rules right.rules
  filterLists : left.filterLists = right.filterLists
  anomalies : left.anomalies = right.anomalies

def AgreeUpToGrouping : Except Error DecisionTable → Except Error DecisionTable → Prop
  | .ok left, .ok right => left.SameUpToGrouping right
  | .error left, .error right => left = right
  | _, _ => False

/-! ## Guards -/

namespace Alternatives.Alike

variable {mode other : CombineMode}

theorem tests_eq_nil_iff {left right : Alternatives} (h : left.Alike right) :
    left.tests = [] ↔ right.tests = [] := by
  simp only [List.eq_nil_iff_forall_not_mem, h.mem_tests_iff]

theorem combine {left left' right right' : Alternatives} (hleft : left.Alike left')
    (hright : right.Alike right') :
    (mode.combine left right).Alike (other.combine left' right') where
  nil_iff := by
    rw [CombineMode.combine_eq_nil, CombineMode.combine_eq_nil, hleft.nil_iff, hright.nil_iff]
  mem_tests_iff test := by
    rw [CombineMode.mem_tests_combine, CombineMode.mem_tests_combine, hleft.mem_tests_iff,
      hright.mem_tests_iff]

theorem negate {left right : Alternatives} (h : left.Alike right) :
    (mode.negate left).Alike (other.negate right) where
  nil_iff := by rw [CombineMode.negate_eq_nil, CombineMode.negate_eq_nil, h.tests_eq_nil_iff]
  mem_tests_iff test := by
    rw [CombineMode.mem_tests_negate, CombineMode.mem_tests_negate, h.mem_tests_iff]

theorem flatten {left right : List Alternatives} (h : List.Forall₂ Alike left right) :
    (mode.flatten left).Alike (other.flatten right) :=
  List.rel_foldl (fun _ _ hresult _ _ hentry => hentry.combine hresult)
    ⟨Iff.rfl, fun _ => Iff.rfl⟩ h

theorem noneOf {left right : List Alternatives} (h : List.Forall₂ Alike left right) :
    (mode.noneOf left).Alike (other.noneOf right) :=
  List.rel_foldl (fun _ _ hresult _ _ hbranch => hresult.combine hbranch.negate)
    ⟨Iff.rfl, fun _ => Iff.rfl⟩ h

theorem expr (guard : Expr) : (guard.alternatives mode).Alike (guard.alternatives other) where
  nil_iff := by
    simp [(guard.proper_alternatives mode).ne_nil, (guard.proper_alternatives other).ne_nil]
  mem_tests_iff test := by rw [Expr.mem_tests_alternatives, Expr.mem_tests_alternatives]

theorem append_singleton {guards guards' : List Alternatives} {guard guard' : Alternatives}
    (hguards : List.Forall₂ Alike guards guards') (hguard : guard.Alike guard') :
    List.Forall₂ Alike (guards ++ [guard]) (guards' ++ [guard']) :=
  List.rel_append hguards (.cons hguard .nil)

end Alternatives.Alike

/-! ## Emissions -/

inductive Emission.Alike : Emission → Emission → Prop
  | rule {target : String} {left right : Alternatives} {line : Nat} (h : left.Alike right) :
    Alike (.rule target left line) (.rule target right line)
  | exit : Alike .exit .exit

open Alternatives (Alike)

variable {mode other : CombineMode}

mutual

theorem Statement.emissions_alike (statement : Statement) {guards guards' : List Alternatives}
    (h : List.Forall₂ Alike guards guards') :
    List.Forall₂ Emission.Alike (statement.emissions mode guards)
      (statement.emissions other guards') := by
  match statement with
  | .skip => exact .nil
  | .assign value line => exact .cons (.rule (Alike.flatten h)) .nil
  | .exit => exact .cons .exit .nil
  | .seq first second => exact List.rel_append (first.emissions_alike h) (second.emissions_alike h)
  | .block body => exact body.emissions_alike h
  | .ifThen guard body => exact body.emissions_alike (Alike.append_singleton h (Alike.expr guard))
  | .ifElse guard body alternative =>
      exact List.rel_append
        (body.emissions_alike (Alike.append_singleton h (Alike.expr guard)))
        (alternative.emissions_alike (Alike.append_singleton h (Alike.expr guard).negate))
  | .select branches => exact branches.emissions_alike h .nil

theorem Branches.emissions_alike (branches : Branches)
    {guards guards' earlier earlier' : List Alternatives}
    (h : List.Forall₂ Alike guards guards') (hearlier : List.Forall₂ Alike earlier earlier') :
    List.Forall₂ Emission.Alike (branches.emissions mode guards earlier)
      (branches.emissions other guards' earlier') := by
  match branches with
  | .done => exact .nil
  | .otherwise body =>
      exact body.emissions_alike (Alike.append_singleton h (Alike.noneOf hearlier))
  | .when guard body others =>
      exact List.rel_append
        (body.emissions_alike (Alike.append_singleton h (Alike.expr guard)))
        (others.emissions_alike h (Alike.append_singleton hearlier (Alike.expr guard)))

end

theorem Emission.Alike.apply {left right : List Rule} {emission emission' : Emission}
    (hrules : List.Forall₂ Rule.SameUpToGrouping left right) (h : emission.Alike emission') :
    List.Forall₂ Rule.SameUpToGrouping (emission.apply left) (emission'.apply right) := by
  cases h with
  | rule halike =>
      have hlength := hrules.length_eq
      exact .cons ⟨rfl, by simp [hlength], rfl, rfl, halike⟩ hrules
  | exit =>
      cases hrules with
      | nil => exact .nil
      | cons hlatest hearlier =>
          exact .cons ⟨hlatest.target, hlatest.sequence, hlatest.line, rfl, hlatest.alternatives⟩
            hearlier

theorem rules_alike {emissions emissions' : List Emission}
    (h : List.Forall₂ Emission.Alike emissions emissions') :
    List.Forall₂ Rule.SameUpToGrouping (emissions.foldl Emission.apply []).reverse
      (emissions'.foldl Emission.apply []).reverse :=
  List.rel_reverse (List.rel_foldl (fun _ _ hrules _ _ hemission => hemission.apply hrules) .nil h)

/-- The combine mode changes neither the errors of a source nor anything in its table but the
grouping of the tests within each rule. -/
theorem ofSource_agreeUpToGrouping (source : String) :
    AgreeUpToGrouping (DecisionTable.ofSource .merge source)
      (DecisionTable.ofSource .distribute source) := by
  rw [DecisionTable.ofSource, DecisionTable.ofSource]
  cases Routine.parse source with
  | error error => rfl
  | ok routine =>
      simp only [bind, Except.bind, DecisionTable.ofRoutine_eq]
      exact ⟨rfl, rfl, rules_alike (routine.body.emissions_alike .nil), rfl, rfl⟩

end ClassSelection
