/-!
# CSV records

Fields between commas, one record to a line. A field that holds a separator, a quote or a line break
is quoted, with its quotes doubled.
-/

namespace ClassSelection.Csv

structure Dialect where
  terminator : Char := '\n'
  /-- Whether fields are quoted that need not be. -/
  quoteAll : Bool := false
  deriving DecidableEq, Repr

/-- Whether a field with this character has to be quoted. Where records end with a line, both
characters of a line break count. -/
def Dialect.isSpecial (dialect : Dialect) (c : Char) : Bool :=
  c == ',' || c == '"' ||
    if dialect.terminator == '\n' || dialect.terminator == '\r' then c == '\n' || c == '\r'
    else c == dialect.terminator

def doubleQuotes (field : List Char) : List Char :=
  field.flatMap fun c => if c == '"' then ['"', '"'] else [c]

def quote (field : List Char) : List Char :=
  '"' :: (doubleQuotes field ++ ['"'])

def Dialect.field (dialect : Dialect) (field : String) : List Char :=
  if dialect.quoteAll || field.toList.any dialect.isSpecial then quote field.toList
  else field.toList

def Dialect.fields (dialect : Dialect) : List String → List Char
  | [] => []
  | [last] => dialect.field last
  | first :: others => dialect.field first ++ ',' :: dialect.fields others

/-- The text of a record with its terminator. A record without a character would be lost among
blank lines, so it is written as a quoted empty field. -/
def Dialect.record (dialect : Dialect) (fields : List String) : List Char :=
  let text := dialect.fields fields
  (if text.isEmpty then quote [] else text) ++ [dialect.terminator]

structure UnequalRecords where
  expected : Nat
  found : Nat
  deriving DecidableEq, Repr

def UnequalRecords.message (refusal : UnequalRecords) : String :=
  "CSV error: found record with " ++ toString refusal.found ++
    " fields, but the previous record has " ++ toString refusal.expected ++ " fields"

def Dialect.records (dialect : Dialect) (width : Nat) :
    List (List String) → Except UnequalRecords (List Char)
  | [] => .ok []
  | first :: others =>
    if first.length = width then do
      return dialect.record first ++ (← dialect.records width others)
    else
      .error ⟨width, first.length⟩

def Dialect.table (dialect : Dialect) (header : List String) (rows : List (List String)) :
    Except UnequalRecords (List Char) :=
  dialect.records header.length (header :: rows)

end ClassSelection.Csv
