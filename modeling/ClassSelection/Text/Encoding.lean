/-!
# Source encodings

The bytes of a routine are UTF-8, or ISO-8859-1 when they are not valid UTF-8. The second form is
what a download through a Latin-1 code page leaves, where `¬` is the single byte `0xAC`.
-/

namespace ClassSelection.Text

/-- The ISO-8859-1 reading: each byte is the character of its own code. -/
def decodeLatin1 (bytes : List UInt8) : String :=
  String.ofList (bytes.map fun byte => Char.ofNat byte.toNat)

def decode (bytes : ByteArray) : String :=
  match String.fromUTF8? bytes with
  | some text => text
  | none => decodeLatin1 bytes.data.toList

end ClassSelection.Text
