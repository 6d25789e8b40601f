import SplitDns.Text.Basic

/-!
# Byte streams

A stream as one side sees it: the pieces in which the other side's bytes arrive, how it ends after
them, and how many bytes it still takes. Every exchange is a state change of the stream, so that
what was written and read stays known when the exchange fails.
-/

namespace SplitDns

/-- What follows the last byte of the other side. -/
inductive Ending where
  | closed
  | reset
  | silent
  deriving DecidableEq, Repr, Inhabited

inductive StreamFault where
  | endOfStream
  | reset
  | brokenPipe
  /-- Nothing happens any more. -/
  | stalled
  deriving DecidableEq, Repr, Inhabited

namespace StreamFault

def text : StreamFault → String
  | endOfStream => "early eof"
  | reset => "connection reset"
  | brokenPipe => "broken pipe"
  | stalled => "timed out"

/-- The failure of reading past the last byte. -/
def ofEnding : Ending → StreamFault
  | .closed => endOfStream
  | .reset => reset
  | .silent => stalled

end StreamFault

structure Stream where
  /-- Pieces not read yet; one read gives bytes of one piece only. -/
  pieces : List Bytes
  ending : Ending
  /-- How many bytes can still be written; nothing means without limit. -/
  room : Option Nat
  written : Bytes
  consumed : Nat
  deriving DecidableEq, Repr, Inhabited

namespace Stream

/-- A fresh stream whose other side takes everything. -/
def ofPieces (pieces : List Bytes) (ending : Ending) : Stream :=
  ⟨pieces, ending, none, [], 0⟩

/-- All bytes not read yet. -/
def incoming (s : Stream) : Bytes :=
  s.pieces.flatten

/-- Bytes cut into pieces of at most `size`. -/
def piecesOf (size : Nat) (bs : Bytes) : List Bytes :=
  if size = 0 ∨ bs.length ≤ size then [bs]
  else bs.take size :: piecesOf size (bs.drop size)
termination_by bs.length
decreasing_by
  simp
  omega

/-- Reads on until `n` bytes are there or no piece is left. -/
def gather : Nat → List Bytes → Bytes × List Bytes
  | _, [] => ([], [])
  | n, p :: ps =>
    if n ≤ p.length then (p.take n, p.drop n :: ps)
    else
      let (bs, rest) := gather (n - p.length) ps
      (p ++ bs, rest)

end Stream

/-- An exchange on a stream. -/
abbrev Exchange (ε α : Type) := Stream → Except ε α × Stream

namespace Exchange

def pure {ε α : Type} (a : α) : Exchange ε α :=
  fun s => (.ok a, s)

def fail {ε α : Type} (e : ε) : Exchange ε α :=
  fun s => (.error e, s)

def bind {ε α β : Type} (x : Exchange ε α) (f : α → Exchange ε β) : Exchange ε β :=
  fun s =>
    match x s with
    | (.ok a, s) => f a s
    | (.error e, s) => (.error e, s)

/-- Names the cause of a failure. -/
def mapError {ε ε' α : Type} (f : ε → ε') (x : Exchange ε α) : Exchange ε' α :=
  fun s =>
    match x s with
    | (.ok a, s) => (.ok a, s)
    | (.error e, s) => (.error (f e), s)

/-- Reads exactly `n` bytes. Bytes read before the stream fails are gone. -/
def read (n : Nat) : Exchange StreamFault Bytes := fun s =>
  let (bs, rest) := Stream.gather n s.pieces
  let s' := { s with pieces := rest, consumed := s.consumed + bs.length }
  if bs.length = n then (.ok bs, s') else (.error (.ofEnding s.ending), s')

/-- Writes all bytes, or as many as there is room for. -/
def write (bs : Bytes) : Exchange StreamFault Unit := fun s =>
  match s.room with
  | none => (.ok (), { s with written := s.written ++ bs })
  | some room =>
    let s' :=
      { s with written := s.written ++ bs.take room, room := some (room - bs.length) }
    if bs.length ≤ room then (.ok (), s') else (.error .brokenPipe, s')

end Exchange

instance (ε : Type) : Monad (Exchange ε) where
  pure := Exchange.pure
  bind := Exchange.bind

end SplitDns
