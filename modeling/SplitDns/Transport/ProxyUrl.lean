import SplitDns.Net.Ipv6

/-!
# Proxy addresses in URLs

An HTTPS client is told its proxy as the URL `socks5h://ADDRESS`. An address is usable when that is
a URL: a user may stand before an `@`, and a host, perhaps in brackets, goes up to a port number.
-/

namespace SplitDns.ProxyUrl

/-- Characters that are left out of a URL wherever they stand. -/
def isDropped (c : Char) : Bool :=
  c == '\t' || c == '\n' || c == '\r'

def endsAuthority (c : Char) : Bool :=
  c == '/' || c == '?' || c == '#'

/-- Characters that no host name holds. -/
def isForbidden (c : Char) : Bool :=
  "\x00\t\n\r #/:<>?@[\\]^|".toList.contains c

def isPort (t : Text) : Bool :=
  t.isEmpty || (Decimal.read? 65535 t).isSome

/-- What follows a host: nothing, or a colon and a port. -/
def isTail : Text → Bool
  | [] => true
  | ':' :: port => isPort port
  | _ => false

/-- A host, perhaps in brackets, and its port. Only when `mayBeEmpty` is set can both be missing. -/
def isHostPort (mayBeEmpty : Bool) : Text → Bool
  | '[' :: r =>
    match Text.cutFirst? ']' r with
    | some (ip, tail) => (Ipv6.parse? ip).isSome && isTail tail
    | none => false
  | t =>
    let host := t.takeWhile (· != ':')
    let tail := t.dropWhile (· != ':')
    !host.any isForbidden && isTail tail && (!host.isEmpty || (mayBeEmpty && tail.isEmpty))

/-- Controls and blanks at the end do not count. -/
def authority (address : Text) : Text :=
  ((Text.dropTailWhile (· ≤ ' ') address).filter (!isDropped ·)).takeWhile (!endsAuthority ·)

def isUsable (address : Text) : Bool :=
  match Text.cutLast? '@' (authority address) with
  | none => isHostPort true (authority address)
  | some (_, hostPort) => isHostPort false hostPort

end SplitDns.ProxyUrl
