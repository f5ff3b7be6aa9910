import ClassSelection.Json.Basic

/-!
# Printing JSON

The indented form of a document: two spaces for each level, each item on a line of its own, and an
empty array or object on one line. In a string only quotes, backslashes and control characters are
escaped.
-/

namespace ClassSelection.Json

def hexDigit (n : Nat) : Char :=
  if n < 10 then Char.ofNat (0x30 + n) else Char.ofNat (0x61 + (n - 10))

def escapeChar (c : Char) : List Char :=
  if c == '"' then ['\\', '"']
  else if c == '\\' then ['\\', '\\']
  else if c == '\x08' then ['\\', 'b']
  else if c == '\t' then ['\\', 't']
  else if c == '\n' then ['\\', 'n']
  else if c == '\x0c' then ['\\', 'f']
  else if c == '\r' then ['\\', 'r']
  else if c.toNat < 0x20 then
    ['\\', 'u', '0', '0', hexDigit (c.toNat / 16), hexDigit (c.toNat % 16)]
  else [c]

def printString (text : String) : List Char :=
  '"' :: (text.toList.flatMap escapeChar ++ ['"'])

def newLine (level : Nat) : List Char :=
  '\n' :: List.replicate (2 * level) ' '

mutual

def print (level : Nat) : Json → List Char
  | null => "null".toList
  | bool true => "true".toList
  | bool false => "false".toList
  | number literal => literal.toList
  | string text => printString text
  | array [] => "[]".toList
  | array (item :: items) =>
    '[' :: (newLine (level + 1) ++ print (level + 1) item ++ printItems (level + 1) items ++
      newLine level ++ [']'])
  | object [] => ['\x7b', '\x7d']
  | object ((key, value) :: members) =>
    '\x7b' :: (newLine (level + 1) ++ printString key ++ [':', ' '] ++ print (level + 1) value ++
      printMembers (level + 1) members ++ newLine level ++ ['\x7d'])

def printItems (level : Nat) : List Json → List Char
  | [] => []
  | item :: items => ',' :: (newLine level ++ print level item ++ printItems level items)

def printMembers (level : Nat) : List (String × Json) → List Char
  | [] => []
  | (key, value) :: members =>
    ',' :: (newLine level ++ printString key ++ [':', ' '] ++ print level value ++
      printMembers level members)

end

def render (document : Json) : String :=
  String.ofList (print 0 document)

end ClassSelection.Json
