import ClassSelection.Proofs.Condition.Ordering
import ClassSelection.Proofs.Reader.Guard
import Mathlib.Data.Nat.Basic

/-!
# Comparisons with their variable on the right

A comparison whose only variable stands on the right is read as a test of that
variable, with the comparator as it is written.  Over an ordered set the test
says what was written if the comparator is its own mirror, as EQ and NE are, and
otherwise only of equal values.
-/

namespace ClassSelection

universe u

namespace WrittenTest

def Holds {α : Type u} [LinearOrder α] (value : String → α) (written : WrittenTest) : Prop :=
  written.comparator.Holds (value written.left.text) (value written.right.text)

def exchanged (written : WrittenTest) (comparator : Comparator) : Test :=
  ⟨written.right.text, comparator, written.left.text⟩

end WrittenTest

namespace Reader

/-- A comparison of a constant with a variable is read as a test of the variable by the same
comparator.  By the mirrored one the test would always say what is written; by this one it does so
exactly if the comparator is its own mirror or the two values are equal. -/
theorem test_of_swapped_operands (s : Reading) {rest : List Token} {written : WrittenTest}
    (hpair : Grammar.Pair Present s.tokens.toList rest written)
    (hleft : written.left.isVariable = false) :
    ∃ s', test s = .ok (written.exchanged written.comparator) s' ∧ s'.tokens.toList = rest ∧
      s.Gains s' [written] ∧
      ∀ (α : Type u) [LinearOrder α] (value : String → α),
        let v := Valuation.ofOrder value
        (v.holds (written.exchanged written.comparator.mirror) = true ↔ written.Holds value) ∧
        ((v.holds (written.exchanged written.comparator) = true ↔ written.Holds value) ↔
          written.comparator.mirror = written.comparator ∨
            value written.left.text = value written.right.text) := by
  have haccepts : Accepts (s.tokens.toList.length + 1) test id _ := accepts_test
  obtain ⟨_, s', hrun, rfl, hrest, hgains⟩ :=
    haccepts.complete (Nat.lt_succ_self _) ⟨written, hpair, rfl, rfl⟩
  have htest : written.test = written.exchanged written.comparator := by
    rw [WrittenTest.test, if_neg (by simp [hleft])]
    rfl
  rw [htest] at hrun
  refine ⟨s', hrun, hrest, hgains, fun α _ value => ⟨?_, ?_⟩⟩
  · rw [Valuation.ofOrder_holds]
    exact written.comparator.holds_mirror _ _
  · rw [Valuation.ofOrder_holds]
    exact written.comparator.holds_swap_iff _ _

/-- `1000 > &SIZE` holds of a size of 500.  It is read as `&SIZE GT 1000`, which does not, whereas
`&SIZE LT 1000` does. -/
theorem test_of_swapped_size :
    let s := Reading.ofSource "1000 > &SIZE"
    let written : WrittenTest := ⟨⟨"1000", false⟩, .gt, ⟨"&SIZE", true⟩⟩
    let v := Valuation.ofOrder fun text => if text = "&SIZE" then 500 else 1000
    Grammar.Pair Present s.tokens.toList [] written ∧ written.left.isVariable = false ∧
      (∃ s', test s = .ok ⟨"&SIZE", .gt, "1000"⟩ s') ∧
      v.holds ⟨"&SIZE", .gt, "1000"⟩ = false ∧ v.holds ⟨"&SIZE", .lt, "1000"⟩ = true := by
  intro s written v
  have htokens : s.tokens.toList = [.word "1000", .punct '>', .word "&SIZE"] := by
    decide +kernel
  have hpair : Grammar.Pair Present s.tokens.toList [] written := by
    rw [htokens]
    exact .mk (.constant rfl (by decide)) (.single rfl (by decide))
      (.named (.plain rfl (by decide))) (.inr rfl)
  obtain ⟨s', hrun, -, -, hvalues⟩ := test_of_swapped_operands s hpair rfl
  obtain ⟨hmirrored, hsame⟩ := hvalues ℕ fun text => if text = "&SIZE" then 500 else 1000
  have hwritten : written.Holds fun text => if text = "&SIZE" then 500 else 1000 := by
    change (500 : ℕ) < 1000
    decide
  refine ⟨hpair, rfl, ⟨s', hrun⟩, ?_, hmirrored.2 hwritten⟩
  rw [← Bool.not_eq_true]
  intro hholds
  have hfaithful := hsame.1 ⟨fun _ => hwritten, fun _ => hholds⟩
  exact absurd hfaithful (by decide)

end Reader

end ClassSelection
