import ClassSelection.Condition.Registry
import ClassSelection.Diagnostic.Anomaly
import ClassSelection.Diagnostic.Error
import ClassSelection.Routine.Declaration
import ClassSelection.Token.Stream

/-!
# Readers

A reader takes tokens from a routine and returns a value, or fails with an error; either way it
keeps what it has found on its way: variables, anomalies and declarations.

Loops and recursion are in two combinators, `many` and `nest`. Both go on only where the stream has
less left than before, so they end on every routine.
-/

namespace ClassSelection

structure Reading where
  tokens : TokenStream
  registry : Registry
  anomalies : List Anomaly
  filterLists : List FilterList
  /-- The kind on the last PROC statement. -/
  kind : Option RoutineKind
  assigned : Bool
  deriving DecidableEq, Repr

def Reading.ofSource (source : String) : Reading where
  tokens := .ofSource source
  registry := .empty
  anomalies := []
  filterLists := []
  kind := none
  assigned := false

abbrev Reader := EStateM Error Reading

namespace Reader

def line : Reader Nat := do
  return (← get).tokens.line

def next : Reader Token := fun reading =>
  let (token, tokens) := reading.tokens.next
  .ok token { reading with tokens }

def putBack (token : Token) : Reader Unit := fun reading =>
  match reading.tokens.pushBack? token with
  | some tokens => .ok () { reading with tokens }
  | none => .error (.tokenPutBackTwice reading.tokens.line) reading

def accept (wanted : Token → Bool) : Reader Bool := do
  let token ← next
  if wanted token then
    return true
  else
    putBack token
    return false

def missing {α : Type} (expected : String) (found : Token) : Reader α := do
  throw (.missingToken expected found.text (← line))

def expect (symbol : Char) (expected : String) : Reader Unit := do
  let token ← next
  unless token == .punct symbol do
    missing expected token

def report (kind : AnomalyKind) : Reader Unit := do
  let line ← line
  modify fun reading => { reading with anomalies := reading.anomalies ++ [⟨line, kind⟩] }

def register (name : String) : Reader Unit :=
  modify fun reading => { reading with registry := (reading.registry.add name).2 }

def many {α : Type} (item : Reader (Option α)) : Reader (List α) := fun reading =>
  match item reading with
  | .error error after => .error error after
  | .ok none after => .ok [] after
  | .ok (some first) after =>
    if after.tokens.remaining < reading.tokens.remaining then
      match many item after with
      | .error error final => .error error final
      | .ok others final => .ok (first :: others) final
    else
      .ok [first] after
termination_by reading => reading.tokens.remaining

/-- A reader that uses itself for what is nested inside; `bottom` stands in where nothing is left
to read. -/
def nest {α : Type} (reader : Reader α → Reader α) (bottom : Reader α) : Reader α := fun reading =>
  reader
    (fun inner =>
      if inner.tokens.remaining < reading.tokens.remaining then nest reader bottom inner
      else bottom inner)
    reading
termination_by reading => reading.tokens.remaining

end Reader

end ClassSelection
