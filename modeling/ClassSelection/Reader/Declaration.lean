import ClassSelection.Reader.Basic

/-!
# Reading declarations

The PROC statement, which names the kind of the routine, and FILTLIST statements.
-/

namespace ClassSelection.Reader

/-- Reads `PROC [label] kind` after its keyword. -/
def proc : Reader Unit := do
  let label ← next
  let token ← if label.isNumber then next else pure label
  match RoutineKind.ofName? token.text with
  | some kind => modify fun reading => { reading with kind := some kind }
  | none => throw (.invalidRoutine token.text (← line))

def textToClose : Reader String := do
  let texts ← many do
    let token ← next
    if token == .punct ')' then
      return none
    if token == .endOfSource then
      missing "closing parenthesis" token
    return some token.text
  return String.join texts

def filterSection? : Reader (Option (FilterList → FilterList)) := do
  if ← accept (· == .word "INCLUDE") then
    expect '(' "( after INCLUDE or EXCLUDE"
    let patterns ← textToClose
    return some fun list => { list with included := patterns }
  else if ← accept (· == .word "EXCLUDE") then
    expect '(' "( after INCLUDE or EXCLUDE"
    let patterns ← textToClose
    return some fun list => { list with excluded := patterns }
  else
    return none

/-- Reads `FILTLIST name INCLUDE(…) EXCLUDE(…)` after its keyword. Of two sections of a kind the
later one counts. -/
def filtlist : Reader Unit := do
  let name ← next
  if name == .endOfSource then
    missing "FILTLIST name" name
  let sections ← many filterSection?
  let list := sections.foldl (fun list enter => enter list) ⟨name.text, "", ""⟩
  modify fun reading => { reading with filterLists := reading.filterLists ++ [list] }

end ClassSelection.Reader
