/-!
# Waiting after failed receives

Each failure to receive in a row doubles the pause before the next try, up to a second. Any
datagram starts the count again. After fifty failures in a row the listener gives up.
-/

namespace SplitDns

/-- The failures since the last datagram. -/
structure Backoff where
  failures : UInt32
  deriving DecidableEq, Repr, Inhabited

namespace Backoff

def fresh : Backoff :=
  ⟨0⟩

/-- Failures in a row after which the listener gives up. -/
def budget : UInt32 := 50

/-- Milliseconds of the first and of the longest pause. -/
def shortest : Nat := 10

def longest : Nat := 1000

/-- Whole milliseconds of the longest time there is; its seconds are a word of 64 bits. -/
def longestTime : Nat := UInt64.size * 1000 - 1

/-- A time taken some number of times, or the longest one. -/
def times (milliseconds : Nat) (n : UInt32) : Nat :=
  min (milliseconds * n.toNat) longestTime

/-- How often the pause is doubled after some failures. -/
def doublings (failures : UInt32) : UInt32 :=
  min (failures - 1) 16

/-- The factor of the pause after some failures. -/
def factor (failures : UInt32) : UInt32 :=
  1 <<< doublings failures

/-- Counts a failure and gives the pause in milliseconds; nothing when the budget is spent. -/
def fail (b : Backoff) : Option Nat × Backoff :=
  let failures := b.failures + 1
  if budget < failures then (none, ⟨failures⟩)
  else (some (min (times shortest (factor failures)) longest), ⟨failures⟩)

def reset (_ : Backoff) : Backoff :=
  fresh

end Backoff

end SplitDns
