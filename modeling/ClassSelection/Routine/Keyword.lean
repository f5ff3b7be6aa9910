import ClassSelection.Token.Basic

/-!
# Keywords

The words that start a statement or end a block.
-/

namespace ClassSelection

inductive Keyword where
  | proc
  | filtlist
  | set
  | doBlock
  | ifThen
  | select
  | exit
  | write
  | endBlock
  | when
  | otherwise
  deriving DecidableEq, Repr

namespace Keyword

def ofWord? (word : String) : Option Keyword :=
  match word with
  | "PROC" => some proc
  | "FILTLIST" => some filtlist
  | "SET" => some set
  | "DO" => some doBlock
  | "IF" => some ifThen
  | "SELECT" => some select
  | "EXIT" => some exit
  | "WRITE" => some write
  | "END" => some endBlock
  | "WHEN" => some when
  | "OTHERWISE" => some otherwise
  | _ => none

def ofToken? : Token → Option Keyword
  | .word text => ofWord? text
  | _ => none

def spelling : Keyword → String
  | proc => "PROC"
  | filtlist => "FILTLIST"
  | set => "SET"
  | doBlock => "DO"
  | ifThen => "IF"
  | select => "SELECT"
  | exit => "EXIT"
  | write => "WRITE"
  | endBlock => "END"
  | when => "WHEN"
  | otherwise => "OTHERWISE"

@[simp] theorem ofWord?_spelling (keyword : Keyword) :
    ofWord? keyword.spelling = some keyword := by
  cases keyword <;> rfl

end Keyword

end ClassSelection
