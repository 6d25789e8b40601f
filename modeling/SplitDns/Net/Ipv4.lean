import SplitDns.Text.Decimal

/-!
# IPv4 addresses

Four octets, written as decimal numbers without leading zeros and parted by dots.
-/

namespace SplitDns

structure Ipv4 where
  a : UInt8
  b : UInt8
  c : UInt8
  d : UInt8
  deriving DecidableEq, Repr, Inhabited

namespace Ipv4

def octets (ip : Ipv4) : Bytes :=
  [ip.a, ip.b, ip.c, ip.d]

def ofOctets? : Bytes → Option Ipv4
  | [a, b, c, d] => some ⟨a, b, c, d⟩
  | _ => none

theorem ofOctets?_octets (ip : Ipv4) : ofOctets? ip.octets = some ip := rfl

/-- An octet in decimal; only `0` itself starts with a zero. -/
def octet? (t : Text) : Option UInt8 :=
  if t.length ≤ 3 ∧ (t.head? ≠ some '0' ∨ t.length = 1) then
    (Decimal.read? 255 t).map UInt8.ofNat
  else none

def parse? (t : Text) : Option Ipv4 := do
  ofOctets? (← (Text.split (· == '.') t).mapM octet?)

def text (ip : Ipv4) : Text :=
  Text.join ['.'] (ip.octets.map fun o => Decimal.text o.toNat)

end Ipv4

end SplitDns
