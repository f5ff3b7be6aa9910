/-!
# Tokens

The words of a routine. Scanning never fails: what is neither separator, comment, literal nor word
is a token of one character.
-/

namespace ClassSelection

inductive Token where
  /-- A keyword, variable, mask or number. -/
  | word (text : String)
  /-- A quoted literal, without its quotes. -/
  | literal (text : String)
  | punct (symbol : Char)
  /-- The end of the routine, which repeats once it is reached. -/
  | endOfSource
  deriving DecidableEq, Repr, Inhabited

def isVariable (text : String) : Bool :=
  text.toList.head? == some '&'

namespace Token

/-- The spelling of a token in a routine; a literal keeps its quotes. -/
def text : Token → String
  | word text => text
  | literal text => "'" ++ text ++ "'"
  | punct symbol => String.singleton symbol
  | endOfSource => "EOF"

def isVariable : Token → Bool
  | word text => ClassSelection.isVariable text
  | _ => false

def isLiteral : Token → Bool
  | literal _ => true
  | _ => false

def isNumber : Token → Bool
  | word text => !text.isEmpty && text.toList.all Char.isDigit
  | _ => false

/-- A word of exactly eight digits, the sequence number in columns 73 to 80 of a card image. -/
def isSequenceNumber : Token → Bool
  | word text => text.toList.length == 8 && text.toList.all Char.isDigit
  | _ => false

end Token

end ClassSelection
