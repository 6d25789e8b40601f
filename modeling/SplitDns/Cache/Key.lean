import SplitDns.Message.Encode

/-!
# Cache keys

Answers are cached by question, letter case aside, and by the records that the request brings
along, EDNS included.
-/

namespace SplitDns

structure CacheKey where
  name : Text
  type : UInt16
  dnsClass : UInt16
  extra : Bytes
  deriving DecidableEq, Repr, Inhabited

namespace CacheKey

def of (q : Question) (extras : List Record) : CacheKey where
  name := Text.lower q.name.text
  type := q.type
  dnsClass := q.dnsClass
  extra := (Section.write extras (Place.start 0)).1.octets

end CacheKey

end SplitDns
