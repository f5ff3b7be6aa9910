import ClassSelection.Proofs.Condition.Valuation
import Mathlib.Order.Lattice

/-!
# Comparators over an ordered set

Once every operand stands for a value of a totally ordered set, a comparator is
a relation between two values, and its opposite is the complement.  So an
assignment of values is a valuation of tests.  Exchanging the sides asks for the
mirrored comparator; the comparator as written will do only if it is its own
mirror or the values are equal (`holds_swap_iff`).
-/

namespace ClassSelection

variable {α : Type*} [LinearOrder α]

namespace Comparator

def Holds : Comparator → α → α → Prop
  | eq, x, y => x = y
  | ne, x, y => x ≠ y
  | gt, x, y => y < x
  | lt, x, y => x < y
  | ge, x, y => y ≤ x
  | le, x, y => x ≤ y

instance decidableHolds : (c : Comparator) → (x y : α) → Decidable (c.Holds x y)
  | eq, x, y => inferInstanceAs (Decidable (x = y))
  | ne, x, y => inferInstanceAs (Decidable (x ≠ y))
  | gt, x, y => inferInstanceAs (Decidable (y < x))
  | lt, x, y => inferInstanceAs (Decidable (x < y))
  | ge, x, y => inferInstanceAs (Decidable (y ≤ x))
  | le, x, y => inferInstanceAs (Decidable (x ≤ y))

theorem holds_negate (c : Comparator) (x y : α) : c.negate.Holds x y ↔ ¬c.Holds x y := by
  cases c <;> simp [negate, Holds]

/-- The comparator for the same comparison with its sides exchanged. -/
def mirror : Comparator → Comparator
  | eq => eq
  | ne => ne
  | gt => lt
  | lt => gt
  | ge => le
  | le => ge

theorem holds_mirror (c : Comparator) (x y : α) : c.mirror.Holds y x ↔ c.Holds x y := by
  cases c <;> simp [mirror, Holds, eq_comm]

/-- A comparator says the same of exchanged sides if it is its own mirror, and otherwise of equal
values only. -/
theorem holds_swap_iff (c : Comparator) (x y : α) :
    (c.Holds y x ↔ c.Holds x y) ↔ c.mirror = c ∨ x = y := by
  rcases lt_trichotomy x y with hlt | rfl | hgt
  · cases c <;> simp [mirror, Holds, hlt, hlt.le, hlt.not_ge, hlt.not_gt, hlt.ne, hlt.ne']
  · simp
  · cases c <;> simp [mirror, Holds, hgt, hgt.le, hgt.not_ge, hgt.not_gt, hgt.ne, hgt.ne']

end Comparator

def Valuation.ofOrder (value : String → α) : Valuation where
  holds test := decide (test.comparator.Holds (value test.subject) (value test.value))
  holds_negate test := by
    rw [← decide_not]
    exact decide_eq_decide.2 (test.comparator.holds_negate _ _)

theorem Valuation.ofOrder_holds (value : String → α) (test : Test) :
    (ofOrder value).holds test = true ↔
      test.comparator.Holds (value test.subject) (value test.value) :=
  decide_eq_true_iff

end ClassSelection
