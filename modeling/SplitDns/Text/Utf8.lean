import SplitDns.Text.Basic

/-!
# UTF-8

Texts as bytes and back. `decode?` refuses what is not the encoding of a text.
-/

namespace SplitDns.Utf8

def encode (t : Text) : Bytes :=
  t.flatMap String.utf8EncodeChar

def decode? (bs : Bytes) : Option Text :=
  (String.fromUTF8? bs.toByteArray).map String.toList

/-- The number of bytes a text takes. -/
def size (t : Text) : Nat :=
  (encode t).length

end SplitDns.Utf8
