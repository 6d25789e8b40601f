import SplitDns.Cache.Key

/-!
# The response cache

A bounded cache that forgets what was used least recently. An entry holds the answer to its
question, or that no server gave one, and lives for some seconds.
-/

namespace SplitDns

/-- Bounds of a cache; times are in seconds. -/
structure CacheSettings where
  size : Nat
  minTtl : UInt32
  maxTtl : UInt32
  /-- The lifetime of entries without an answer. -/
  negativeTtl : UInt32
  deriving DecidableEq, Repr, Inhabited

namespace CacheSettings

def standard : CacheSettings :=
  ⟨4096, 60, 86400, 10⟩

def capacity (s : CacheSettings) : Nat :=
  max s.size 1

/-- The largest TTL is at least the smallest one. -/
def normal (s : CacheSettings) : CacheSettings :=
  { s with maxTtl := max s.minTtl s.maxTtl }

/-- Seconds for which the answer to a question is kept. -/
def ttl (s : CacheSettings) : Option Message → UInt32
  | none => s.negativeTtl
  | some m =>
    match m.minTtl? with
    | none => s.minTtl
    | some t => max s.minTtl (min t s.normal.maxTtl)

end CacheSettings

structure CacheEntry where
  key : CacheKey
  answer : Option Message
  expires : Nat
  deriving DecidableEq, Repr, Inhabited

/-- Entries are in the order of their last use, latest first. -/
structure Cache where
  settings : CacheSettings
  entries : List CacheEntry
  deriving DecidableEq, Repr, Inhabited

inductive Lookup where
  | hit (answer : Message)
  | negative
  | miss
  deriving DecidableEq, Repr, Inhabited

namespace Lookup

def ofAnswer : Option Message → Lookup
  | some m => hit m
  | none => negative

end Lookup

namespace Cache

def empty (settings : CacheSettings) : Cache :=
  ⟨settings, []⟩

def size (c : Cache) : Nat :=
  c.entries.length

def find? (c : Cache) (k : CacheKey) : Option CacheEntry :=
  c.entries.find? (·.key == k)

/-- The entries under other keys. -/
def others (c : Cache) (k : CacheKey) : List CacheEntry :=
  c.entries.filter (·.key != k)

/-- What is known at time `now` under a key. An entry that is found becomes the latest used one; one
that has expired is removed. -/
def get (c : Cache) (now : Nat) (k : CacheKey) : Lookup × Cache :=
  match c.find? k with
  | none => (.miss, c)
  | some e =>
    if now < e.expires then (.ofAnswer e.answer, { c with entries := e :: c.others k })
    else (.miss, { c with entries := c.others k })

/-- Stores an answer, or that there was none, as the latest used entry. -/
def set (c : Cache) (now : Nat) (k : CacheKey) (answer : Option Message) : Cache :=
  let e : CacheEntry := ⟨k, answer, now + (c.settings.ttl answer).toNat⟩
  { c with entries := (e :: c.others k).take c.settings.capacity }

def clear (c : Cache) : Cache :=
  empty c.settings

end Cache

end SplitDns
