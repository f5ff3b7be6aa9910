import ClassSelection.Reader.Declaration
import ClassSelection.Reader.Guard
import ClassSelection.Routine.Keyword
import ClassSelection.Routine.Statement

/-!
# Reading statements

A routine is a sequence of statements. What is no statement is reported and passed over; END and
the branches of an enclosing SELECT end a block; everything else that is out of place is an error.
-/

namespace ClassSelection.Reader

/-- Reads `SET variable = value` after its keyword. The variable has to be one that a routine of
this kind sets. -/
def assignment : Reader Statement := do
  let target ← next
  let kind ←
    match if target.isVariable then RoutineKind.ofName? target.text else none with
    | some kind => pure kind
    | none => throw (.invalidTarget target.text (← line))
  match (← get).kind with
  | some routine =>
    unless routine == kind do
      throw (.targetMismatch target.text routine.name (← line))
  | none => pure ()
  let sign ← next
  unless sign == .punct '=' || sign == .word "EQ" do
    missing "= or EQ" sign
  let value ← next
  if value == .endOfSource then
    missing "SET value" value
  modify fun reading => { reading with assigned := true }
  return .assign value.text (← line)

/-- Reads `EXIT [CODE(n)]` after its keyword. There has to be a SET that it can follow. -/
def exit : Reader Statement := do
  let line ← line
  if ← accept (· == .word "CODE") then
    expect '(' "( after CODE"
    let code ← next
    if code == .endOfSource then
      missing "exit code" code
    expect ')' "closing parenthesis"
  unless (← get).assigned do
    throw (.exitWithoutRule line)
  return .exit

def write : Reader Unit := do
  let _ ← many do
    if ← accept (fun token => token.isLiteral || token.isVariable) then
      return some ()
    else
      return none

def blockWith (nested : Reader (Option Statement)) : Reader Statement :=
  Statement.sequence <$> many nested

/-- Reads `IF guard THEN statement [ELSE statement]` after its keyword. -/
def conditionalWith (nested : Reader (Option Statement)) : Reader Statement := do
  let guard ← expr
  let token ← next
  unless token == .word "THEN" do
    missing "THEN after IF" token
  let body := (← nested).getD .skip
  if ← accept (· == .word "ELSE") then
    return .ifElse guard body ((← nested).getD .skip)
  else
    return .ifThen guard body

def whenValue (subject : String) : Reader String := do
  let value ← next
  if value == .endOfSource || value == .punct ')' || value == .punct ',' then
    missing "WHEN value" value
  register subject
  return value.text

def whenValues (subject : String) : Reader Expr := do
  let first ← whenValue subject
  let others ← many do
    if ← accept (· == .punct ',') then
      return some (← whenValue subject)
    else
      return none
  return .oneOf subject first others

def whenWith? (nested : Reader (Option Statement)) (subject : Option String) :
    Reader (Option (Expr × Statement)) := do
  unless ← accept (· == .word "WHEN") do
    return none
  expect '(' "( after WHEN"
  let guard ←
    match subject with
    | some subject => whenValues subject
    | none => expr
  expect ')' "closing parenthesis on WHEN"
  let body ← blockWith nested
  return some (guard, body)

def selectSubject : Reader String := do
  match ← variableName? with
  | some subject => return subject
  | none =>
    let found ← next
    throw (.invalidSelect found.text (← line))

/-- Reads `SELECT [(subject)] WHEN (…) … [OTHERWISE …] END` after its keyword. The END is taken by
the body of the last branch. -/
def selectWith (nested : Reader (Option Statement)) : Reader Statement := do
  let subject ←
    if ← accept (· == .punct '(') then
      let subject ← selectSubject
      expect ')' "closing parenthesis"
      pure (some subject)
    else
      pure none
  let whens ← many (whenWith? nested subject)
  if ← accept (· == .word "OTHERWISE") then
    return .select (.prepend whens (.otherwise (← blockWith nested)))
  else
    return .select (.prepend whens .done)

/-- Reads a statement, given the reader for the statements inside it. There is none at the end of
the source, at an END, which is taken, and at a WHEN or OTHERWISE, which stays where it is. -/
def statementWith? (nested : Reader (Option Statement)) : Reader (Option Statement) := do
  let token ← next
  match Keyword.ofToken? token with
  | some .proc => proc; return some .skip
  | some .filtlist => filtlist; return some .skip
  | some .write => write; return some .skip
  | some .set => return some (← assignment)
  | some .exit => return some (← exit)
  | some .doBlock => return some (.block (← blockWith nested))
  | some .ifThen => return some (← conditionalWith nested)
  | some .select => return some (← selectWith nested)
  | some .endBlock => return none
  | some .when | some .otherwise => putBack token; return none
  | none =>
    if token == .endOfSource then
      return none
    report (.unknownKeyword token.text)
    return some .skip

def statement? : Reader (Option Statement) :=
  nest statementWith? (pure none)

def strayBranch : Reader Unit := do
  let token ← next
  match Keyword.ofToken? token with
  | some .when | some .otherwise => report (.unknownKeyword token.text)
  | _ => putBack token

def topLevel? : Reader (Option Statement) := do
  if (← get).tokens.exhausted then
    return none
  let block ← blockWith statement?
  strayBranch
  return some block

def routineBody : Reader Statement :=
  Statement.sequence <$> many topLevel?

end ClassSelection.Reader
