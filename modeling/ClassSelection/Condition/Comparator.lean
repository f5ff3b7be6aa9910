/-!
# Comparators

The six comparison operators. `NG` (not greater) is `le` and `NL` (not less) is `ge`, so that every
spelling has one of six meanings and each meaning has an opposite.
-/

namespace ClassSelection

inductive Comparator where
  | eq
  | ne
  | gt
  | lt
  | ge
  | le
  deriving DecidableEq, Repr, Inhabited

namespace Comparator

def ofSpelling? (spelling : String) : Option Comparator :=
  match spelling with
  | "EQ" | "=" => some eq
  | "NE" | "¬=" | "^=" => some ne
  | "GT" | ">" => some gt
  | "LT" | "<" => some lt
  | "GE" | ">=" | "NL" | "¬<" | "^<" => some ge
  | "LE" | "<=" | "NG" | "¬>" | "^>" => some le
  | _ => none

def negate : Comparator → Comparator
  | eq => ne
  | ne => eq
  | gt => le
  | le => gt
  | lt => ge
  | ge => lt

def mnemonic : Comparator → String
  | eq => "EQ"
  | ne => "NE"
  | gt => "GT"
  | lt => "LT"
  | ge => "GE"
  | le => "LE"

def symbol : Comparator → String
  | eq => "="
  | ne => "¬="
  | gt => ">"
  | lt => "<"
  | ge => ">="
  | le => "<="

@[simp] theorem negate_negate (c : Comparator) : c.negate.negate = c := by
  cases c <;> rfl

@[simp] theorem ofSpelling?_mnemonic (c : Comparator) : ofSpelling? c.mnemonic = some c := by
  cases c <;> rfl

@[simp] theorem ofSpelling?_symbol (c : Comparator) : ofSpelling? c.symbol = some c := by
  cases c <;> rfl

end Comparator

end ClassSelection
