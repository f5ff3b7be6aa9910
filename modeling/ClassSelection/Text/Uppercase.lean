import ClassSelection.Text.CaseTable

/-!
# Capital letters

The capital form of a text, character by character. Letters outside ASCII follow the table of
`ClassSelection.Text.CaseTable`; a letter with a capital of several characters (`ß`, the ligatures)
grows into them.
-/

namespace ClassSelection.Text

def CaseRun.holds (run : CaseRun) (code : Nat) : Bool :=
  run.first ≤ code && code ≤ run.last && (code - run.first) % run.step == 0

def capital (c : Char) : List Char :=
  let code := c.toNat
  if code < 0x80 then
    if 0x61 ≤ code && code ≤ 0x7A then [Char.ofNat (code - 0x20)] else [c]
  else
    match caseRuns.find? (·.holds code) with
    | some run => [Char.ofNat (run.capital + (code - run.first))]
    | none =>
      match expandingCapitals.lookup code with
      | some codes => codes.map Char.ofNat
      | none => [c]

def uppercase (text : List Char) : List Char :=
  text.flatMap capital

end ClassSelection.Text
