import SplitDns.Net.Address
import SplitDns.Text.Utf8

/-!
# Server identities

The name that a TLS server has to prove is a DNS name or an address. DNS names here may hold
underscores, and their last label is not a number.
-/

namespace SplitDns.ServerIdentity

def isNameChar (c : Char) : Bool :=
  c.isAlphanum || c == '-' || c == '_'

def isLabel (l : Text) : Bool :=
  !l.isEmpty && l.length ≤ 63 && l.all isNameChar && l.head? != some '-' && l.getLast? != some '-'

/-- Labels, perhaps with a closing dot, of at most 253 bytes in all. -/
def isDnsName (t : Text) : Bool :=
  let labels := Text.split (· == '.') ((Text.before? ['.'] t).getD t)
  Utf8.size t ≤ 253 && labels.all isLabel && !(labels.getLast?.any (·.all Char.isDigit))

def isValid (t : Text) : Bool :=
  isDnsName t || (IpAddr.parse? t).isSome

end SplitDns.ServerIdentity
