import ClassSelection.Proofs.Condition.Outline

/-!
# Building conditions

A condition is built with or without looking for repetitions, and its repetitions
can be removed at any time.  Whatever the steps and their order, it has the first
occurrences of the tests that were supplied (`eraseDups_built`), and this is all
that `sameTests` and `dedup` see of it.
-/

namespace ClassSelection

inductive ConditionStep where
  /-- A test is added unless it is present. -/
  | insert (test : Test)
  /-- A test is added, present or not. -/
  | push (test : Test)
  | merge (other : Condition)
  /-- The condition is built anew from tests, each added unless it is present. -/
  | collect (tests : List Test)
  | dedup
  deriving DecidableEq, Repr

namespace ConditionStep

def apply : ConditionStep → Condition → Condition
  | insert test, condition => condition.insert test
  | push test, condition => condition.push test
  | merge other, condition => condition.merge other
  | collect tests, _ => .ofList tests
  | dedup, condition => condition.dedup

def tests : ConditionStep → List Test
  | insert test | push test => [test]
  | merge other => other.tests
  | collect tests => tests
  | dedup => []

/-! ## What a history tells, the latest step first -/

def built : List ConditionStep → Condition
  | [] => .empty
  | step :: earlier => step.apply (built earlier)

/-- The tests of the latest step that builds the condition anew and of the steps after it, or of
all steps if there is none. -/
def supplied : List ConditionStep → List Test
  | [] => []
  | collect tests :: _ => tests
  | step :: earlier => supplied earlier ++ step.tests

end ConditionStep

open ConditionStep

namespace Condition

/-! ## What a step stores -/

theorem tests_foldl_insert (tests : List Test) (condition : Condition) :
    (tests.foldl insert condition).tests = tests.foldl addNew condition.tests :=
  (List.foldl_hom Condition.tests fun condition test => (tests_insert condition test).symm).symm

theorem tests_ofList (tests : List Test) : (ofList tests).tests = tests.eraseDups := by
  rw [ofList, tests_foldl_insert, ← foldl_addNew_nil]
  rfl

theorem tests_dedup (condition : Condition) : condition.dedup.tests = condition.tests.eraseDups :=
  foldl_addNew_nil condition.tests

theorem tests_foldl_push (tests : List Test) (condition : Condition) :
    (tests.foldl push condition).tests = condition.tests ++ tests := by
  induction tests generalizing condition with
  | nil => rw [List.foldl_nil, List.append_nil]
  | cons test tests ih => rw [List.foldl_cons, ih, push, List.append_assoc, List.singleton_append]

theorem dedup_eq_ofList (condition : Condition) : condition.dedup = ofList condition.tests :=
  congrArg mk ((tests_dedup condition).trans (tests_ofList condition.tests).symm)

/-! ## First occurrences -/

theorem eraseDups_insert (condition : Condition) (test : Test) :
    (condition.insert test).tests.eraseDups = (condition.tests ++ [test]).eraseDups := by
  rw [tests_insert, eraseDups_addNew]

theorem eraseDups_merge (condition other : Condition) :
    (condition.merge other).tests.eraseDups = (condition.tests ++ other.tests).eraseDups := by
  rw [merge, tests_foldl_insert, eraseDups_foldl_addNew]

theorem eraseDups_ofList (tests : List Test) :
    (ofList tests).tests.eraseDups = tests.eraseDups := by
  rw [tests_ofList, eraseDups_eq_self (nodup_eraseDups tests)]

/-- Whatever the steps, the condition has the first occurrences of what was supplied. -/
theorem eraseDups_built (history : List ConditionStep) :
    (built history).tests.eraseDups = (supplied history).eraseDups := by
  -- how often a test is stored depends on the order of the steps, so nothing more can be carried
  induction history with
  | nil => rfl
  | cons step earlier ih =>
      cases step with
      | insert test =>
          rw [built, apply, eraseDups_insert]
          exact eraseDups_append_congr ih [test]
      | push test => exact eraseDups_append_congr ih [test]
      | merge other =>
          rw [built, apply, eraseDups_merge]
          exact eraseDups_append_congr ih other.tests
      | collect tests => exact eraseDups_ofList tests
      | dedup =>
          have hsupplied : supplied (.dedup :: earlier) = supplied earlier := List.append_nil _
          rw [built, apply, dedup_eq_ofList, eraseDups_ofList, ih, hsupplied]

/-! ## What is seen of a condition -/

@[simp] theorem dedup_dedup (condition : Condition) : condition.dedup.dedup = condition.dedup := by
  have htests : condition.dedup.dedup.tests = condition.dedup.tests := by
    rw [dedup_eq_ofList condition.dedup, tests_ofList, tests_dedup,
      eraseDups_eq_self (nodup_eraseDups condition.tests)]
  exact congrArg mk htests

@[simp] theorem testSet_dedup (condition : Condition) :
    condition.dedup.testSet = condition.testSet := by
  ext test
  rw [mem_testSet, mem_testSet, tests_dedup, List.mem_eraseDups]

theorem testSet_built (history : List ConditionStep) :
    (built history).testSet = (supplied history).toFinset := by
  ext test
  rw [mem_testSet, ← List.mem_eraseDups, eraseDups_built, List.mem_eraseDups, List.mem_toFinset]

theorem sameTests_congr {condition condition' other other' : Condition}
    (h : condition.testSet = condition'.testSet) (h' : other.testSet = other'.testSet) :
    condition.sameTests other = condition'.sameTests other' := by
  rw [Bool.eq_iff_iff, sameTests_iff, sameTests_iff, h, h']

theorem equivalence_sameTests :
    Equivalence fun condition other : Condition => condition.sameTests other = true where
  refl _ := sameTests_iff.2 rfl
  symm h := sameTests_iff.2 (sameTests_iff.1 h).symm
  trans h h' := sameTests_iff.2 ((sameTests_iff.1 h).trans (sameTests_iff.1 h'))

/-- Tests that are stored without a look at repetitions, which are then removed, are stored as if
each had been looked up.  After any steps the tests are those that were supplied, and removing
repetitions leaves each of them once, in the order in which they first came; it is idempotent, and
no comparison of conditions shows it.  Conditions compare equal exactly if their sets of tests
are. -/
theorem keeps_first_occurrences :
    (∀ tests : List Test, (tests.foldl push empty).dedup = ofList tests ∧
      (ofList tests).tests = tests.eraseDups) ∧
    (∀ history : List ConditionStep,
      (built history).testSet = (supplied history).toFinset ∧
      (built history).dedup.tests = (supplied history).eraseDups ∧
      (∀ test, (built history).dedup.tests.count test = if test ∈ supplied history then 1 else 0) ∧
      (built history).dedup.dedup = (built history).dedup) ∧
    (∀ condition other : Condition,
      condition.dedup.sameTests other = condition.sameTests other ∧
      other.sameTests condition.dedup = other.sameTests condition ∧
      (condition.sameTests other = true ↔ condition.testSet = other.testSet)) ∧
    Equivalence fun condition other : Condition => condition.sameTests other = true := by
  refine ⟨fun tests => ⟨?_, tests_ofList tests⟩, fun history => ?_, fun condition other => ?_,
    equivalence_sameTests⟩
  · have hpushed : (tests.foldl push empty).tests = tests := tests_foldl_push tests empty
    rw [dedup_eq_ofList, hpushed]
  · have hdedup : (built history).dedup.tests = (supplied history).eraseDups := by
      rw [tests_dedup, eraseDups_built]
    refine ⟨testSet_built history, hdedup, fun test => ?_, dedup_dedup _⟩
    rw [hdedup, (nodup_eraseDups _).count]
    simp only [List.mem_eraseDups]
  · exact ⟨sameTests_congr (testSet_dedup condition) rfl,
      sameTests_congr rfl (testSet_dedup condition), sameTests_iff⟩

/-- What was stored before the condition was built anew is gone, and what is pushed stays. -/
example :
    let a : Test := ⟨"&A", .eq, "1"⟩
    let b : Test := ⟨"&B", .ne, "2"⟩
    (built [.push b, .merge ⟨[a, a]⟩, .collect [b, b], .push a]).tests = [b, a, b] := by
  decide

end Condition

end ClassSelection
