import ClassSelection.Token.Scan

/-!
# The token stream

A routine as it is read: token by token, with one slot to put a token back.
-/

namespace ClassSelection

structure TokenStream where
  /-- The line that the reading has reached, counted from 1. -/
  line : Nat
  /-- The text after the last token scanned. -/
  rest : List Char
  /-- A token that was put back, the next one to be read. -/
  pending : Option Token
  /-- Whether the end of the source has been scanned. -/
  exhausted : Bool
  deriving DecidableEq, Repr

namespace TokenStream

def ofSource (source : String) : TokenStream :=
  { line := 1, rest := source.toList, pending := none, exhausted := false }

def next (stream : TokenStream) : Token × TokenStream :=
  match stream.pending with
  | some token => (token, { stream with pending := none })
  | none =>
    let (token, place) := Token.read stream.line stream.rest
    (token,
      { stream with
        line := place.line
        rest := place.rest
        exhausted := stream.exhausted || token == .endOfSource })

/-- Puts a token back, so that it is read again; refused while another one is waiting. -/
def pushBack? (stream : TokenStream) (token : Token) : Option TokenStream :=
  match stream.pending with
  | some _ => none
  | none => some { stream with pending := some token }

/-- What is left to read: the characters not yet scanned, and one for a waiting token. -/
def remaining (stream : TokenStream) : Nat :=
  stream.rest.length +
    match stream.pending with
    | some .endOfSource => 0
    | some _ => 1
    | none => 0

end TokenStream

end ClassSelection
