import SplitDns.Text.Basic

/-!
# Domain texts

Domains of rules, suffix tables and queries are compared in one canonical form. A domain in which
the loop marker occurs more than once belongs to a query that came back to its sender.
-/

namespace SplitDns.Domain

def stripDots (t : Text) : Text :=
  Text.dropTailWhile (· == '.') t

/-- Without trailing dots and in small letters. -/
def canonical (t : Text) : Text :=
  Text.lower (stripDots t)

/-- The label fragment that forwarders of this kind put into names of their own. It cannot overlap
itself, so its occurrences are apart. -/
def loopMarker : Text :=
  ".ne-".toList

def markers (t : Text) : Nat :=
  Text.occurrences loopMarker t

def isLooping (t : Text) : Bool :=
  1 < markers t

end SplitDns.Domain
