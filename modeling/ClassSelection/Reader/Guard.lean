import ClassSelection.Condition.Expr
import ClassSelection.Reader.Basic

/-!
# Reading guards

The grammar of guards has no precedence and leans to the right:

    expr := ( "(" expr ")" | test ) [ ("AND" | "&&") expr | ("OR" | "|") expr ]
    test := operand comparator operand
-/

namespace ClassSelection.Reader

/-- Reads a variable with its qualifier in parentheses, such as `&DSN(3)`. If the next token is no
variable, it stays where it is. -/
def variableName? : Reader (Option String) := do
  let token ← next
  unless token.isVariable do
    putBack token
    return none
  if ← accept (· == .punct '(') then
    let qualifier ← next
    if qualifier == .endOfSource then
      missing "variable qualifier" qualifier
    expect ')' "closing parenthesis"
    return some (token.text ++ "(" ++ qualifier.text ++ ")")
  else
    return some token.text

def opensComparator (token : Token) : Bool :=
  token == .punct '>' || token == .punct '<' || token == .punct '^' || token == .punct '¬'

def closesComparator (token : Token) : Bool :=
  token == .punct '>' || token == .punct '<' || token == .punct '='

def secondSymbol : Reader String := do
  let token ← next
  if closesComparator token then
    return token.text
  else
    putBack token
    return ""

def comparator : Reader Comparator := do
  let token ← next
  let second ← if opensComparator token then secondSymbol else pure ""
  let spelling := token.text ++ second
  match Comparator.ofSpelling? spelling with
  | some comparator => return comparator
  | none => throw (.invalidComparator spelling (← line))

structure Operand where
  text : String
  isVariable : Bool

def operand : Reader Operand := do
  match ← variableName? with
  | some text => return ⟨text, true⟩
  | none =>
    let token ← next
    if token == .endOfSource then
      missing "comparison operand" token
    return ⟨token.text, false⟩

/-- Reads a comparison and registers its variable. A variable on the right is taken for the subject,
with the comparator as written, and reported. -/
def test : Reader Test := do
  let left ← operand
  let comparator ← comparator
  let right ← operand
  let test ←
    if left.isVariable then
      pure ⟨left.text, comparator, right.text⟩
    else if right.isVariable then
      report (.swappedOperands left.text comparator.mnemonic right.text)
      pure ⟨right.text, comparator, left.text⟩
    else
      throw (.invalidComparison left.text comparator.mnemonic right.text (← line))
  register test.subject
  return test

def exprWith (nested : Reader Expr) : Reader Expr := do
  let token ← next
  let first ←
    if token == .punct '(' then
      let inner ← nested
      expect ')' "closing parenthesis"
      pure inner
    else if token == .punct ')' then
      missing "condition" token
    else
      putBack token
      .test <$> test
  let connective ← next
  if connective == .word "AND" || connective == .word "&&" then
    return .both first (← nested)
  else if connective == .word "OR" || connective == .punct '|' then
    return .either first (← nested)
  else
    putBack connective
    return first

def expr : Reader Expr :=
  nest exprWith (missing "comparison operand" .endOfSource)

end ClassSelection.Reader
