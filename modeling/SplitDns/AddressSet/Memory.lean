import SplitDns.Net.Ipv4

/-!
# Address sets in memory

A set of addresses whose members expire after some seconds, or never.
-/

namespace SplitDns

structure MemorySet where
  name : Text
  /-- Seconds that a member without a lifetime of its own stays; nothing means forever. -/
  defaultTtl : Option Nat
  /-- Members with the time at which they expire, each address once. -/
  members : List (Ipv4 × Option Nat)
  deriving DecidableEq, Repr, Inhabited

namespace MemorySet

def empty (name : Text) (defaultTtl : Option Nat) : MemorySet :=
  ⟨name, defaultTtl, []⟩

/-- Whether a member that expires at a time is still there at another. -/
def isLive (now : Nat) (expires : Option Nat) : Bool :=
  expires.all (now < ·)

/-- The time at which an address added now expires; a lifetime of zero stands for the default. -/
def expiry (s : MemorySet) (now : Nat) (ttl : UInt32) : Option Nat :=
  (if ttl = 0 then s.defaultTtl else some ttl.toNat).map (now + ·)

def add (s : MemorySet) (now : Nat) (ip : Ipv4) (ttl : UInt32) : MemorySet :=
  { s with members := (ip, s.expiry now ttl) :: s.members.filter (·.1 != ip) }

/-- Whether an address is in the set. This alone removes nothing. -/
def has (s : MemorySet) (now : Nat) (ip : Ipv4) : Bool :=
  (s.members.lookup ip).any (isLive now)

/-- Removes an address when it has expired. -/
def drop (s : MemorySet) (now : Nat) (ip : Ipv4) : MemorySet :=
  { s with members := s.members.filter fun (a, expires) => a != ip || isLive now expires }

/-- Whether an address is in the set; an expired one that was asked for is removed. -/
def contains (s : MemorySet) (now : Nat) (ip : Ipv4) : Bool × MemorySet :=
  if s.has now ip then (true, s) else (false, s.drop now ip)

/-- The number of addresses that have not expired. -/
def size (s : MemorySet) (now : Nat) : Nat :=
  (s.members.filter fun (_, expires) => isLive now expires).length

/-- Removes all addresses that have expired. -/
def purge (s : MemorySet) (now : Nat) : MemorySet :=
  { s with members := s.members.filter fun (_, expires) => isLive now expires }

end MemorySet

end SplitDns
