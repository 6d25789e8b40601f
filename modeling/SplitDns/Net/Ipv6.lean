import SplitDns.Net.Ipv4

/-!
# IPv6 addresses

Eight groups of sixteen bits. A written address may abbreviate one run of zero groups as `::` and
may end in the dotted form of an IPv4 address, which stands for two groups.
-/

namespace SplitDns

structure Ipv6 where
  groups : List UInt16
  length_groups : groups.length = 8
  deriving DecidableEq, Repr

namespace Ipv6

instance : Inhabited Ipv6 :=
  ⟨⟨List.replicate 8 0, rfl⟩⟩

def ofGroups? (gs : List UInt16) : Option Ipv6 :=
  if h : gs.length = 8 then some ⟨gs, h⟩ else none

/-! ## Octets -/

def groupOctets (g : UInt16) : Bytes :=
  [(g >>> 8).toUInt8, g.toUInt8]

def joinOctets (high low : UInt8) : UInt16 :=
  high.toUInt16 <<< 8 ||| low.toUInt16

def octets (ip : Ipv6) : Bytes :=
  ip.groups.flatMap groupOctets

/-- Octets two by two as groups. -/
def groupsOf? : Bytes → Option (List UInt16)
  | [] => some []
  | [_] => none
  | high :: low :: r => (groupsOf? r).map (joinOctets high low :: ·)

def ofOctets? (bs : Bytes) : Option Ipv6 :=
  (groupsOf? bs).bind ofGroups?

/-! ## Reading -/

/-- One to four hexadecimal digits. -/
def group? (t : Text) : Option UInt16 :=
  if t.length ≤ 4 then (Digits.read? 16 t).map UInt16.ofNat else none

/-- The two groups of a dotted IPv4 address. -/
def groupsOfIpv4 (ip : Ipv4) : List UInt16 :=
  [joinOctets ip.a ip.b, joinOctets ip.c ip.d]

/-- Groups parted by colons, all of them hexadecimal. -/
def plainGroups? (t : Text) : Option (List UInt16) :=
  (Text.split (· == ':') t).mapM group?

/-- Groups parted by colons, the last of them possibly in dotted form. -/
def groups? (t : Text) : Option (List UInt16) :=
  match Text.cutLast? ':' t with
  | none => (Ipv4.parse? t).elim (plainGroups? t) (some ∘ groupsOfIpv4)
  | some (head, last) =>
    match Ipv4.parse? last with
    | some ip => (plainGroups? head).map (· ++ groupsOfIpv4 ip)
    | none => plainGroups? t

/-- The parts before and after the first `::`. -/
def cutGap? : Text → Option (Text × Text)
  | ':' :: ':' :: r => some ([], r)
  | c :: r => (cutGap? r).map fun (a, b) => (c :: a, b)
  | [] => none

/-- An empty side of a `::` holds no groups. -/
def side? (read : Text → Option (List UInt16)) (t : Text) : Option (List UInt16) :=
  if t.isEmpty then some [] else read t

def parse? (t : Text) : Option Ipv6 :=
  match cutGap? t with
  | none => (groups? t).bind ofGroups?
  | some (left, right) => do
    let head ← side? plainGroups? left
    let tail ← side? groups? right
    if head.length + tail.length ≤ 7 then
      ofGroups? (head ++ List.replicate (8 - head.length - tail.length) 0 ++ tail)
    else none

/-! ## Writing -/

/-- The dotted address in the last two groups of an address in `::ffff:0:0/96`. -/
def mapped? (ip : Ipv6) : Option Ipv4 :=
  match ip.groups with
  | [0, 0, 0, 0, 0, 0xffff, g, h] => Ipv4.ofOctets? (groupOctets g ++ groupOctets h)
  | _ => none

/-- The number of zero groups at the front. -/
def zeros (gs : List UInt16) : Nat :=
  (gs.takeWhile (· == 0)).length

/-- Start and length of the longest run of zero groups, the first of several. -/
def longestZeros (gs : List UInt16) : Nat × Nat :=
  (List.range gs.length).foldl
    (fun best i => if best.2 < zeros (gs.drop i) then (i, zeros (gs.drop i)) else best) (0, 0)

def groupsText (gs : List UInt16) : Text :=
  Text.join [':'] (gs.map fun g => Digits.text 16 g.toNat)

/-- The longest run of at least two zero groups is written `::`. -/
def text (ip : Ipv6) : Text :=
  match ip.mapped? with
  | some v4 => "::ffff:".toList ++ v4.text
  | none =>
    let (start, count) := longestZeros ip.groups
    if 2 ≤ count then
      groupsText (ip.groups.take start) ++ "::".toList ++
        groupsText (ip.groups.drop (start + count))
    else groupsText ip.groups

end Ipv6

end SplitDns
