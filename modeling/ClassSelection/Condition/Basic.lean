import ClassSelection.Condition.Comparator

/-!
# Conditions

A test compares one variable with one value. A condition is a conjunction of tests; it keeps them
in the order in which they came, while `sameTests` compares two conditions without regard to order
or repetition. A set of alternatives is a disjunction of conditions, and the empty one stands for
"no constraint".
-/

namespace ClassSelection

/-- One comparison of a variable with a value, such as `&DSN EQ 'SYS1.LINKLIB'`. -/
structure Test where
  subject : String
  comparator : Comparator
  value : String
  deriving DecidableEq, Repr

namespace Test

/-- The test that holds exactly when this one does not. -/
def negate (test : Test) : Test :=
  { test with comparator := test.comparator.negate }

def display (test : Test) : String :=
  test.subject ++ " " ++ test.comparator.mnemonic ++ " " ++ test.value

@[simp] theorem negate_negate (test : Test) : test.negate.negate = test := by
  simp [negate]

end Test

/-- A conjunction of tests, in the order in which they were added. -/
structure Condition where
  tests : List Test
  deriving DecidableEq, Repr, Inhabited

/-- A disjunction of conditions. The empty one is no constraint. -/
abbrev Alternatives := List Condition

namespace Condition

def empty : Condition := ⟨[]⟩

def single (test : Test) : Condition := ⟨[test]⟩

def contains (condition : Condition) (test : Test) : Bool :=
  condition.tests.contains test

def push (condition : Condition) (test : Test) : Condition :=
  ⟨condition.tests ++ [test]⟩

def insert (condition : Condition) (test : Test) : Condition :=
  if condition.contains test then condition else condition.push test

def merge (condition other : Condition) : Condition :=
  other.tests.foldl insert condition

def ofList (tests : List Test) : Condition :=
  tests.foldl insert empty

def dedup (condition : Condition) : Condition :=
  ⟨condition.tests.foldl (fun kept test => if kept.contains test then kept else kept ++ [test]) []⟩

def testsOf (condition : Condition) (subject : String) : List Test :=
  condition.tests.filter (·.subject == subject)

/-- The negation, as alternatives: a conjunction fails as soon as one of its tests does. -/
def negate (condition : Condition) : Alternatives :=
  condition.tests.map fun test => single test.negate

/-- Whether two conditions have the same tests, in whatever order and however often. -/
def sameTests (condition other : Condition) : Bool :=
  condition.tests.all other.contains && other.tests.all condition.contains

def display (condition : Condition) : String :=
  " AND ".intercalate (condition.tests.map Test.display)

end Condition

end ClassSelection
