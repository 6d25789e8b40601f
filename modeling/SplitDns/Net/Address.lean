import SplitDns.Net.Ipv6

/-!
# Addresses and socket addresses

A socket address is an address with a port number; an IPv6 address is bracketed then and may carry
a numeric scope.
-/

namespace SplitDns

inductive IpAddr where
  | v4 (ip : Ipv4)
  | v6 (ip : Ipv6)
  deriving DecidableEq, Repr, Inhabited

namespace IpAddr

def parse? (t : Text) : Option IpAddr :=
  match Ipv4.parse? t with
  | some ip => some (v4 ip)
  | none => (Ipv6.parse? t).map v6

def text : IpAddr → Text
  | v4 ip => ip.text
  | v6 ip => ip.text

def octets : IpAddr → Bytes
  | v4 ip => ip.octets
  | v6 ip => ip.octets

end IpAddr

inductive SocketAddr where
  | v4 (ip : Ipv4) (port : UInt16)
  | v6 (ip : Ipv6) (scope : UInt32) (port : UInt16)
  deriving DecidableEq, Repr, Inhabited

namespace SocketAddr

def of (ip : IpAddr) (port : UInt16) : SocketAddr :=
  match ip with
  | .v4 ip => v4 ip port
  | .v6 ip => v6 ip 0 port

def ip : SocketAddr → IpAddr
  | v4 ip _ => .v4 ip
  | v6 ip _ _ => .v6 ip

def port : SocketAddr → UInt16
  | v4 _ port => port
  | v6 _ _ port => port

/-- The digits of a port; unlike a port on its own it takes no sign. -/
def port? (t : Text) : Option UInt16 :=
  (Decimal.read? 65535 t).map UInt16.ofNat

def scope? (t : Text) : Option UInt32 :=
  (Decimal.read? 4294967295 t).map UInt32.ofNat

/-- The inside of the brackets: an IPv6 address and perhaps `%` and its scope. -/
def scoped? (t : Text) : Option (Ipv6 × UInt32) :=
  match Text.cutFirst? '%' t with
  | none => (Ipv6.parse? t).map (·, 0)
  | some (ip, scope) => do
    let ip ← Ipv6.parse? ip
    let scope ← scope? scope
    return (ip, scope)

def parse? : Text → Option SocketAddr
  | '[' :: r => do
    let (inside, rest) ← Text.cutFirst? ']' r
    let (ip, scope) ← scoped? inside
    match rest with
    | ':' :: digits => (port? digits).map (v6 ip scope)
    | _ => none
  | t => do
    let (host, digits) ← Text.cutLast? ':' t
    let ip ← Ipv4.parse? host
    let port ← port? digits
    return v4 ip port

def text : SocketAddr → Text
  | v4 ip port => ip.text ++ ':' :: Decimal.text port.toNat
  | v6 ip scope port =>
    let scope := if scope = 0 then [] else '%' :: Decimal.text scope.toNat
    '[' :: ip.text ++ scope ++ "]:".toList ++ Decimal.text port.toNat

end SocketAddr

end SplitDns
