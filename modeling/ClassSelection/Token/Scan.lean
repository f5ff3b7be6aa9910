import ClassSelection.Text.Uppercase
import ClassSelection.Token.Basic

/-!
# Scanning

The next token at the head of a text. Separators and comments before it are passed over; only they
can hold line breaks, so they alone advance the line. Words that are sequence numbers are dropped.

`length_scan_lt` says that a token other than the end of the source takes at least one character.
-/

namespace ClassSelection

/-- A place in a routine: the line it is on, and the text from there. -/
structure Cursor where
  line : Nat
  rest : List Char
  deriving DecidableEq, Repr

namespace Token

/-- A character with no meaning between tokens: white space, the arithmetic signs of continued
lines, and the semicolon after a statement. -/
def isSeparator (c : Char) : Bool :=
  (0x09 ≤ c.toNat && c.toNat ≤ 0x20) || c == '+' || c == '-' || c == ';'

def isWordChar (c : Char) : Bool :=
  c.isAlphanum || c == '_' || c == '&' || c == '%' || c == '*' || c == '.'

/-- A character that a literal can hold: it ends at a quote or at the end of its line. -/
def isLiteralChar (c : Char) : Bool :=
  c != '\'' && c != '\n'

def lineAfter (line : Nat) (c : Char) : Nat :=
  if c == '\n' then line + 1 else line

mutual

def skipSeparators (line : Nat) : List Char → Cursor
  | '/' :: '*' :: rest => skipComment line rest
  | c :: rest =>
    if isSeparator c then skipSeparators (lineAfter line c) rest else ⟨line, c :: rest⟩
  | [] => ⟨line, []⟩

/-- Passes the rest of a comment, and what `skipSeparators` passes after it. A comment without its
closing mark runs to the end of the source. -/
def skipComment (line : Nat) : List Char → Cursor
  | '*' :: '/' :: rest => skipSeparators line rest
  | c :: rest => skipComment (lineAfter line c) rest
  | [] => ⟨line, []⟩

end

def dropQuote : List Char → List Char
  | '\'' :: rest => rest
  | rest => rest

def scanToken : List Char → Token × List Char
  | [] => (endOfSource, [])
  | c :: rest =>
    if c == '\'' then
      (literal (String.ofList (Text.uppercase (rest.takeWhile isLiteralChar))),
        dropQuote (rest.dropWhile isLiteralChar))
    else if isWordChar c then
      (word (String.ofList (Text.uppercase (c :: rest.takeWhile isWordChar))),
        rest.dropWhile isWordChar)
    else
      (punct c, rest)

/-- The next token and the place after it, sequence numbers included. -/
def scan (line : Nat) (text : List Char) : Token × Cursor :=
  let start := skipSeparators line text
  let (token, rest) := scanToken start.rest
  (token, ⟨start.line, rest⟩)

mutual

theorem length_skipSeparators_le (line : Nat) :
    (text : List Char) → (skipSeparators line text).rest.length ≤ text.length
  | [] => by simp [skipSeparators]
  | [c] => by
    rw [skipSeparators]
    · split
      · simp [skipSeparators]
      · simp
    · simp
  | c :: d :: rest => by
    unfold skipSeparators
    split
    · rename_i h
      simp only [List.cons.injEq] at h
      obtain ⟨_, _, rfl⟩ := h
      have := length_skipComment_le line rest
      simp only [List.length_cons]
      omega
    · rename_i h
      simp only [List.cons.injEq] at h
      obtain ⟨rfl, rfl⟩ := h
      split
      · have := length_skipSeparators_le (lineAfter line c) (d :: rest)
        simp only [List.length_cons] at this ⊢
        omega
      · simp
    · simp_all

theorem length_skipComment_le (line : Nat) :
    (text : List Char) → (skipComment line text).rest.length ≤ text.length
  | [] => by simp [skipComment]
  | [c] => by
    rw [skipComment]
    · simp [skipComment]
    · simp
  | c :: d :: rest => by
    unfold skipComment
    split
    · rename_i h
      simp only [List.cons.injEq] at h
      obtain ⟨_, _, rfl⟩ := h
      have := length_skipSeparators_le line rest
      simp only [List.length_cons]
      omega
    · rename_i h
      simp only [List.cons.injEq] at h
      obtain ⟨rfl, rfl⟩ := h
      have := length_skipComment_le (lineAfter line c) (d :: rest)
      simp only [List.length_cons] at this ⊢
      omega
    · simp_all

end

theorem length_dropQuote_le (text : List Char) : (dropQuote text).length ≤ text.length := by
  unfold dropQuote
  split <;> simp

theorem length_scanToken_lt {text : List Char} (h : (scanToken text).1 ≠ endOfSource) :
    (scanToken text).2.length < text.length := by
  cases text with
  | nil => simp [scanToken] at h
  | cons c rest =>
    have hq := length_dropQuote_le (rest.dropWhile isLiteralChar)
    have hl := (rest.dropWhile_suffix isLiteralChar).length_le
    have hw := (rest.dropWhile_suffix isWordChar).length_le
    simp only [scanToken, List.length_cons]
    split
    · simp only; omega
    · split <;> simp only <;> omega

theorem length_scan_lt {line : Nat} {text : List Char} (h : (scan line text).1 ≠ endOfSource) :
    (scan line text).2.rest.length < text.length :=
  Nat.lt_of_lt_of_le (length_scanToken_lt h) (length_skipSeparators_le line text)

def read (line : Nat) (text : List Char) : Token × Cursor :=
  if (scan line text).1.isSequenceNumber then
    read (scan line text).2.line (scan line text).2.rest
  else
    scan line text
termination_by text.length
decreasing_by
  rename_i h
  apply length_scan_lt
  intro hend
  simp [hend, isSequenceNumber] at h

end Token

end ClassSelection
