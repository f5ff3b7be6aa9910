import ClassSelection.Proofs.Reader.Takes

/-!
# The grammar of guards

    condition := ( "(" condition ")" | pair ) [ ("AND" | "&&") condition | ("OR" | "|") condition ]
    pair      := operand comparator operand

Each phrase relates the tokens before it, the tokens after it and its value.
The grammar looks one token ahead where a variable may have a qualifier and
where a comparator may have a second symbol.  `expr` accepts the conditions
that are not followed by a connective, and nothing else.
-/

namespace ClassSelection

open Reader (upcoming)

structure WrittenTest where
  left : Reader.Operand
  comparator : Comparator
  right : Reader.Operand

namespace WrittenTest

/-- The test that it stands for: a variable is the subject, the left one of two. -/
def test (written : WrittenTest) : Test :=
  if written.left.isVariable then
    ⟨written.left.text, written.comparator, written.right.text⟩
  else
    ⟨written.right.text, written.comparator, written.left.text⟩

/-- What is odd about it: the only variable is on the right. -/
def anomaly? (written : WrittenTest) : Option AnomalyKind :=
  if written.left.isVariable then
    none
  else
    some (.swappedOperands written.left.text written.comparator.mnemonic written.right.text)

end WrittenTest

/-- What a reader finds and leaves, its value, and the tests that it reads on the way. -/
abbrev Form (γ : Type) := List Token → List Token → γ → List WrittenTest → Prop

namespace Grammar

def openingSymbols : List Token := [.punct '>', .punct '<', .punct '^', .punct '¬']

def closingSymbols : List Token := [.punct '>', .punct '<', .punct '=']

def conjunctions : List Token := [.word "AND", .word "&&"]

def disjunctions : List Token := [.word "OR", .punct '|']

inductive Sign : List Token → List Token → Comparator → Prop
  | single {token : Token} {rest : List Token} {comparator : Comparator}
      (hspelled : Comparator.ofSpelling? token.text = some comparator)
      (hnext : token ∈ openingSymbols → upcoming rest ∉ closingSymbols) :
      Sign (token :: rest) rest comparator
  | joined {first second : Token} {rest : List Token} {comparator : Comparator}
      (hfirst : first ∈ openingSymbols) (hsecond : second ∈ closingSymbols)
      (hspelled : Comparator.ofSpelling? (first.text ++ second.text) = some comparator) :
      Sign (first :: second :: rest) rest comparator

section

variable (qualifies : Token → Prop)

inductive Variable : List Token → List Token → String → Prop
  | plain {token : Token} {rest : List Token} (hvariable : token.isVariable = true)
      (hnext : upcoming rest ≠ .punct '(') : Variable (token :: rest) rest token.text
  | qualified {token qualifier : Token} {rest : List Token} (hvariable : token.isVariable = true)
      (hqualifier : qualifies qualifier) :
      Variable (token :: .punct '(' :: qualifier :: .punct ')' :: rest) rest
        (token.text ++ "(" ++ qualifier.text ++ ")")

inductive Operand : List Token → List Token → Reader.Operand → Prop
  | named {before after : List Token} {name : String} (h : Variable qualifies before after name) :
      Operand before after ⟨name, true⟩
  | constant {token : Token} {rest : List Token} (hconstant : token.isVariable = false)
      (hne : token ≠ .endOfSource) : Operand (token :: rest) rest ⟨token.text, false⟩

inductive Pair : List Token → List Token → WrittenTest → Prop
  | mk {before second third after : List Token} {left right : Reader.Operand}
      {comparator : Comparator} (hleft : Operand qualifies before second left)
      (hsign : Sign second third comparator) (hright : Operand qualifies third after right)
      (hvariable : left.isVariable = true ∨ right.isVariable = true) :
      Pair before after ⟨left, comparator, right⟩

variable (mode : CombineMode)

mutual

inductive Part : Form Alternatives
  | pair {before after : List Token} {written : WrittenTest} (hopen : upcoming before ≠ .punct '(')
      (hclose : upcoming before ≠ .punct ')') (h : Pair qualifies before after written) :
      Part before after [.single written.test] [written]
  | group {before after : List Token} {alternatives : Alternatives} {tests : List WrittenTest}
      (h : Condition before (.punct ')' :: after) alternatives tests) :
      Part (.punct '(' :: before) after alternatives tests

/-- A part and, after a connective, another condition: connectives group to the right. -/
inductive Condition : Form Alternatives
  | part {before after : List Token} {alternatives : Alternatives} {tests : List WrittenTest}
      (h : Part before after alternatives tests) : Condition before after alternatives tests
  | both {before middle after : List Token} {connective : Token} {left right : Alternatives}
      {tests tests' : List WrittenTest} (hleft : Part before (connective :: middle) left tests)
      (hconnective : connective ∈ conjunctions) (hright : Condition middle after right tests') :
      Condition before after (mode.combine left right) (tests ++ tests')
  | either {before middle after : List Token} {connective : Token} {left right : Alternatives}
      {tests tests' : List WrittenTest} (hleft : Part before (connective :: middle) left tests)
      (hconnective : connective ∈ disjunctions) (hright : Condition middle after right tests') :
      Condition before after (left ++ right) (tests ++ tests')

end

end

/-- No connective is next, so a condition has come to its end. -/
def Ended (rest : List Token) : Prop :=
  upcoming rest ∉ conjunctions ∧ upcoming rest ∉ disjunctions

end Grammar

end ClassSelection
