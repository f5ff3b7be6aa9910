import ClassSelection.Proofs.Reader.Takes

/-!
# Written guards

The tokens of a guard as an author writes it, with the guard that they stand
for, and a proof that `expr` reads the one from the other.  There is no
precedence: AND and OR take everything to their right.
-/

namespace ClassSelection.Source

open Reader

structure Variable where
  name : String
  marked : isVariable name = true
  qualifier : Option { token : Token // token ≠ .endOfSource }

namespace Variable

def tokens (v : Variable) : List Token :=
  .word v.name ::
    match v.qualifier with
    | some token => [.punct '(', token, .punct ')']
    | none => []

def text (v : Variable) : String :=
  match v.qualifier with
  | some token => v.name ++ "(" ++ token.val.text ++ ")"
  | none => v.name

end Variable

/-- A comparator as it is written, in one token or in two symbols. -/
structure Sign where
  first : Token
  second : Option Token
  opens : second.isSome = true → opensComparator first = true
  closes : ∀ token ∈ second, closesComparator token = true
  comparator : Comparator
  spelled : Comparator.ofSpelling? (first.text ++ (second.map Token.text).getD "") = some comparator

def Sign.equals : Sign where
  first := .punct '='
  second := none
  opens := by simp
  closes := by simp
  comparator := .eq
  spelled := rfl

def Sign.tokens (sign : Sign) : List Token :=
  sign.first :: sign.second.toList

inductive Operand where
  | var (v : Variable)
  | word (text : String) (h : isVariable text = false)
  | literal (text : String)

namespace Operand

def tokens : Operand → List Token
  | var v => v.tokens
  | word text _ => [.word text]
  | literal text => [.literal text]

def text : Operand → String
  | var v => v.text
  | word text _ => text
  | literal text => (Token.literal text).text

end Operand

structure Comparison where
  subject : Variable
  sign : Sign
  value : Operand

namespace Comparison

def tokens (comparison : Comparison) : List Token :=
  comparison.subject.tokens ++ (comparison.sign.tokens ++ comparison.value.tokens)

def test (comparison : Comparison) : Test :=
  ⟨comparison.subject.text, comparison.sign.comparator, comparison.value.text⟩

end Comparison

inductive Connective where
  | and
  | ampersands
  | or
  | bar

namespace Connective

def token : Connective → Token
  | and => .word "AND"
  | ampersands => .word "&&"
  | or => .word "OR"
  | bar => .punct '|'

def join : Connective → Expr → Expr → Expr
  | and | ampersands => .both
  | or | bar => .either

end Connective

mutual

inductive Atom where
  | test (comparison : Comparison)
  | group (inner : Guard)

inductive Guard where
  | atom (a : Atom)
  | join (left : Atom) (connective : Connective) (right : Guard)

end

def Guard.equals (subject word : String) (hsubject : isVariable subject = true)
    (hword : isVariable word = false) : Guard :=
  .atom (.test ⟨⟨subject, hsubject, none⟩, .equals, .word word hword⟩)

mutual

def Atom.tokens : Atom → List Token
  | .test comparison => comparison.tokens
  | .group inner => .punct '(' :: (inner.tokens ++ [.punct ')'])

def Guard.tokens : Guard → List Token
  | .atom a => a.tokens
  | .join left connective right => left.tokens ++ connective.token :: right.tokens

end

mutual

def Atom.expr : Atom → Expr
  | .test comparison => .test comparison.test
  | .group inner => inner.expr

def Guard.expr : Guard → Expr
  | .atom a => a.expr
  | .join left connective right => connective.join left.expr right.expr

end

/-! ## Reading comparisons -/

variable {kind : Option RoutineKind} {rest : List Token}

theorem takes_variableName? (v : Variable) (h : upcoming rest ≠ .punct '(') :
    Takes kind variableName? (v.tokens ++ rest) rest (· = some v.text) := by
  obtain ⟨name, marked, qualifier⟩ := v
  apply runs_next
  rw [if_pos (by exact marked)]
  cases qualifier with
  | none =>
      refine runs_accept_not (by simpa using h) ?_
      exact Takes.pure rfl
  | some token =>
      refine runs_accept (by simp) ?_
      apply runs_next
      rw [if_neg (by simp [token.property])]
      exact runs_expect (Takes.pure rfl)

theorem takes_variableName?_none {before : List Token}
    (h : (upcoming before).isVariable = false) :
    Takes kind variableName? before before (· = none) := by
  apply runs_putBack
  · rw [if_neg (by simp [h])]
  · exact Takes.pure rfl

theorem takes_comparator (sign : Sign) (h : closesComparator (upcoming rest) = false) :
    Takes kind comparator (sign.tokens ++ rest) rest (· = sign.comparator) := by
  obtain ⟨first, second, opens, closes, comparator, spelled⟩ := sign
  apply runs_next
  dsimp only
  cases second with
  | none =>
      have hspelled : Comparator.ofSpelling? (first.text ++ "") = some comparator := spelled
      split
      · have hsecond : Takes kind secondSymbol rest rest (· = "") := by
          apply runs_putBack
          · rw [if_neg (by simp [h])]
          · exact Takes.pure rfl
        refine hsecond.bind fun second hsecond => ?_
        rw [hsecond, hspelled]
        exact Takes.pure rfl
      · rw [pure_bind, hspelled]
        exact Takes.pure rfl
  | some token =>
      have hspelled : Comparator.ofSpelling? (first.text ++ token.text) = some comparator := spelled
      have hsecond : Takes kind secondSymbol (token :: rest) rest (· = token.text) := by
        apply runs_next
        rw [if_pos (closes token rfl)]
        exact Takes.pure rfl
      rw [if_pos (opens rfl)]
      refine hsecond.bind fun second hsecond => ?_
      rw [hsecond, hspelled]
      exact Takes.pure rfl

theorem takes_operand (value : Operand) (h : upcoming rest ≠ .punct '(') :
    Takes kind operand (value.tokens ++ rest) rest (·.text = value.text) := by
  have hconstant {token : Token} (hvariable : token.isVariable = false)
      (hne : token ≠ .endOfSource) :
      Takes kind operand (token :: rest) rest (·.text = token.text) := by
    have hname : Takes kind variableName? (token :: rest) (token :: rest) (· = none) :=
      takes_variableName?_none hvariable
    refine hname.bind fun _ heq => heq ▸ ?_
    apply runs_next
    rw [if_neg (by simp [hne])]
    exact Takes.pure rfl
  cases value with
  | var v => exact (takes_variableName? v h).bind fun _ heq => heq ▸ Takes.pure rfl
  | word text hword => exact hconstant hword (by simp)
  | literal text => exact hconstant rfl (by simp)

theorem Sign.first_ne_paren (sign : Sign) : sign.first ≠ .punct '(' := by
  obtain ⟨first, second, opens, closes, comparator, spelled⟩ := sign
  rintro rfl
  cases second with
  | none => simp [Token.text, Comparator.ofSpelling?] at spelled
  | some token => simp [opensComparator] at opens

theorem takes_test (comparison : Comparison) (h : upcoming rest ≠ .punct '(') :
    Takes kind Reader.test (comparison.tokens ++ rest) rest (· = comparison.test) := by
  obtain ⟨subject, sign, value⟩ := comparison
  have hvalue : closesComparator (upcoming (value.tokens ++ rest)) = false := by
    cases value <;> simp [Operand.tokens, Variable.tokens, closesComparator]
  have hsign : upcoming (sign.tokens ++ (value.tokens ++ rest)) ≠ .punct '(' := sign.first_ne_paren
  have hsubject : Takes kind operand (subject.tokens ++ (sign.tokens ++ (value.tokens ++ rest)))
      (sign.tokens ++ (value.tokens ++ rest)) (· = ⟨subject.text, true⟩) :=
    (takes_variableName? subject hsign).bind fun _ heq => heq ▸ Takes.pure rfl
  simp only [Comparison.tokens, List.append_assoc]
  refine hsubject.bind fun left hleft => (takes_comparator sign hvalue).bind fun comparator hsign =>
    (takes_operand value h).bind fun right hright => ?_
  subst hleft hsign
  simp only [if_true, hright, pure_bind]
  exact runs_register (Takes.pure rfl)

/-! ## Reading guards -/

/-- What stands after a whole guard: THEN or a closing parenthesis. -/
def EndsGuard (rest : List Token) : Prop :=
  upcoming rest = .word "THEN" ∨ upcoming rest = .punct ')'

/-- After the first part of a guard, nothing is taken where the guard ends. -/
theorem takes_connected_end {nested : Reader Expr} {first : Expr} (h : EndsGuard rest) :
    Takes kind (connected nested first) rest rest (· = first) := by
  have hand : (upcoming rest == .word "AND" || upcoming rest == .word "&&") = false := by
    rcases h with h | h <;> rw [h] <;> rfl
  have hor : (upcoming rest == .word "OR" || upcoming rest == .punct '|') = false := by
    rcases h with h | h <;> rw [h] <;> rfl
  apply runs_putBack
  · rw [if_neg (by simp [hand]), if_neg (by simp [hor])]
  · exact Takes.pure rfl

theorem takes_connected {nested : Reader Expr} {first right : Expr} {before : List Token}
    (connective : Connective) (h : Takes kind nested before rest (· = right)) :
    Takes kind (connected nested first) (connective.token :: before) rest
      (· = connective.join first right) := by
  apply runs_next
  cases connective <;> exact h.bind fun _ heq => heq ▸ Takes.pure rfl

mutual

theorem Atom.runs (a : Atom) {rest : List Token}
    {outcome : EStateM.Result Error Reading Expr → Prop}
    (hparen : upcoming rest ≠ .punct '(')
    (h : Runs kind (connected expr a.expr) rest outcome) :
    Runs kind expr (a.tokens ++ rest) outcome := by
  rw [expr_eq]
  match a with
  | .test comparison =>
      apply runs_putBack
      · rfl
      · have htest : Takes kind (Expr.test <$> Reader.test) (comparison.tokens ++ rest) rest
            (· = .test comparison.test) :=
          (takes_test comparison hparen).map fun _ heq => heq ▸ rfl
        exact htest.bind fun _ heq => heq ▸ h
  | .group inner =>
      rw [Atom.tokens, List.cons_append, List.append_assoc]
      apply runs_next
      have hinner : Takes kind expr (inner.tokens ++ .punct ')' :: rest) (.punct ')' :: rest)
          (· = inner.expr) := inner.takes (.inr rfl)
      refine hinner.bind fun _ heq => runs_expect ?_
      rw [heq, pure_bind]
      exact h

theorem Guard.takes (guard : Guard) {rest : List Token} (h : EndsGuard rest) :
    Takes kind expr (guard.tokens ++ rest) rest (· = guard.expr) := by
  match guard with
  | .atom a =>
      have hparen : upcoming rest ≠ .punct '(' := by
        rcases h with h | h <;> rw [h] <;> simp
      exact a.runs hparen (takes_connected_end h)
  | .join left connective right =>
      have hparen : upcoming (connective.token :: (right.tokens ++ rest)) ≠ .punct '(' := by
        cases connective <;> simp [Connective.token]
      rw [Guard.tokens, List.append_assoc]
      exact left.runs hparen (takes_connected connective (right.takes h))

end

end ClassSelection.Source
