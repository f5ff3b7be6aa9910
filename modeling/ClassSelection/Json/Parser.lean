import ClassSelection.Json.Basic

/-!
# Parsing JSON

A strict parser for JSON documents: one value between blanks, with no comments, trailing commas or
byte order mark. Each function returns what it has read with the text after it, or nothing when the
text is no JSON.
-/

namespace ClassSelection.Json

def isBlank (c : Char) : Bool :=
  c == ' ' || c == '\t' || c == '\n' || c == '\r'

def skipBlanks (text : List Char) : List Char :=
  text.dropWhile isBlank

def hexValue? (c : Char) : Option Nat :=
  if '0' ≤ c && c ≤ '9' then some (c.toNat - 0x30)
  else if 'a' ≤ c && c ≤ 'f' then some (c.toNat - 0x61 + 10)
  else if 'A' ≤ c && c ≤ 'F' then some (c.toNat - 0x41 + 10)
  else none

def parseHex4 : List Char → Option (Nat × List Char)
  | a :: b :: c :: d :: rest => do
    return (((← hexValue? a) * 16 + (← hexValue? b)) * 16 * 16 +
      ((← hexValue? c) * 16 + (← hexValue? d)), rest)
  | _ => none

/-- Reads a `\u` escape after its `u`. A high surrogate needs a low one after it, and the two are
one character. -/
def parseUnicodeEscape (text : List Char) : Option (Char × List Char) := do
  let (high, rest) ← parseHex4 text
  if 0xD800 ≤ high && high ≤ 0xDBFF then
    match rest with
    | '\\' :: 'u' :: rest =>
      let (low, rest) ← parseHex4 rest
      if 0xDC00 ≤ low && low ≤ 0xDFFF then
        return (Char.ofNat (0x10000 + (high - 0xD800) * 0x400 + (low - 0xDC00)), rest)
      else none
    | _ => none
  else if 0xDC00 ≤ high && high ≤ 0xDFFF then none
  else return (Char.ofNat high, rest)

def parseEscape : List Char → Option (Char × List Char)
  | '"' :: rest => some ('"', rest)
  | '\\' :: rest => some ('\\', rest)
  | '/' :: rest => some ('/', rest)
  | 'b' :: rest => some ('\x08', rest)
  | 'f' :: rest => some ('\x0c', rest)
  | 'n' :: rest => some ('\n', rest)
  | 'r' :: rest => some ('\r', rest)
  | 't' :: rest => some ('\t', rest)
  | 'u' :: rest => parseUnicodeEscape rest
  | _ => none

def parseChars : Nat → List Char → Option (List Char × List Char)
  | 0, _ => none
  | fuel + 1, text =>
    match text with
    | [] => none
    | c :: rest => do
      if c == '"' then return ([], rest)
      if c.toNat < 0x20 then none
      let (char, rest) ← if c == '\\' then parseEscape rest else some (c, rest)
      let (chars, rest) ← parseChars fuel rest
      return (char :: chars, rest)

def parseString (text : List Char) : Option (String × List Char) := do
  let (chars, rest) ← parseChars (text.length + 1) text
  return (String.ofList chars, rest)

def parseDigits (text : List Char) : Option (List Char × List Char) :=
  match text.takeWhile Char.isDigit with
  | [] => none
  | digits => some (digits, text.dropWhile Char.isDigit)

def parseWhole : List Char → Option (List Char × List Char)
  | '0' :: rest => some (['0'], rest)
  | text => parseDigits text

def parseFraction : List Char → Option (List Char × List Char)
  | '.' :: rest => do
    let (digits, rest) ← parseDigits rest
    return ('.' :: digits, rest)
  | text => some ([], text)

def parseExponent : List Char → Option (List Char × List Char)
  | 'e' :: rest | 'E' :: rest => do
    let (sign, rest) :=
      match rest with
      | '+' :: rest => (['+'], rest)
      | '-' :: rest => (['-'], rest)
      | rest => ([], rest)
    let (digits, rest) ← parseDigits rest
    return ('e' :: (sign ++ digits), rest)
  | text => some ([], text)

def parseNumber (text : List Char) : Option (Json × List Char) := do
  let (sign, rest) :=
    match text with
    | '-' :: rest => (['-'], rest)
    | rest => ([], rest)
  let (whole, rest) ← parseWhole rest
  let (fraction, rest) ← parseFraction rest
  let (exponent, rest) ← parseExponent rest
  return (number (String.ofList (sign ++ whole ++ fraction ++ exponent)), rest)

mutual

def parseValue : Nat → List Char → Option (Json × List Char)
  | 0, _ => none
  | fuel + 1, text =>
    match skipBlanks text with
    | 'n' :: 'u' :: 'l' :: 'l' :: rest => some (null, rest)
    | 't' :: 'r' :: 'u' :: 'e' :: rest => some (bool true, rest)
    | 'f' :: 'a' :: 'l' :: 's' :: 'e' :: rest => some (bool false, rest)
    | '"' :: rest => do
      let (text, rest) ← parseString rest
      return (string text, rest)
    | '[' :: rest =>
      match skipBlanks rest with
      | ']' :: rest => some (array [], rest)
      | _ => do
        let (items, rest) ← parseItems fuel rest
        return (array items, rest)
    | '\x7b' :: rest =>
      match skipBlanks rest with
      | '\x7d' :: rest => some (object [], rest)
      | _ => do
        let (members, rest) ← parseMembers fuel rest
        return (object members, rest)
    | rest => parseNumber rest

/-- Reads the items of an array that is not empty, and the closing bracket. -/
def parseItems : Nat → List Char → Option (List Json × List Char)
  | 0, _ => none
  | fuel + 1, text => do
    let (item, rest) ← parseValue fuel text
    match skipBlanks rest with
    | ',' :: rest =>
      let (items, rest) ← parseItems fuel rest
      return (item :: items, rest)
    | ']' :: rest => return ([item], rest)
    | _ => none

def parseMembers : Nat → List Char → Option (List (String × Json) × List Char)
  | 0, _ => none
  | fuel + 1, text => do
    match skipBlanks text with
    | '"' :: rest =>
      let (key, rest) ← parseString rest
      match skipBlanks rest with
      | ':' :: rest =>
        let (value, rest) ← parseValue fuel rest
        match skipBlanks rest with
        | ',' :: rest =>
          let (members, rest) ← parseMembers fuel rest
          return ((key, value) :: members, rest)
        | '\x7d' :: rest => return ([(key, value)], rest)
        | _ => none
      | _ => none
    | _ => none

end

def parse? (text : String) : Option Json := do
  let (document, rest) ← parseValue (text.toList.length + 1) text.toList
  if (skipBlanks rest).isEmpty then return document else none

end ClassSelection.Json
