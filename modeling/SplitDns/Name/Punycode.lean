import SplitDns.Text.Basic

/-!
# Punycode

The encoding of international labels in letters, digits and hyphens (RFC 3492). ASCII characters
come first; the others follow in order of their code points, as distances in numbers of variable
length whose digits adapt to the distances seen so far.
-/

namespace SplitDns.Punycode

/-- The digits are `a` to `z`, then `0` to `9`. -/
def digit (d : Nat) : Char :=
  if d < 26 then Char.ofNat (97 + d) else Char.ofNat (22 + d)

def value? (c : Char) : Option Nat :=
  let n := c.toNat
  if 97 ≤ n && n ≤ 122 then some (n - 97)
  else if 65 ≤ n && n ≤ 90 then some (n - 65)
  else if 48 ≤ n && n ≤ 57 then some (n - 22)
  else none

/-- A digit below the threshold of its place ends its number. -/
def threshold (place bias : Nat) : Nat :=
  min 26 (max 1 (place - bias))

theorem threshold_bounds (place bias : Nat) :
    1 ≤ threshold place bias ∧ threshold place bias ≤ 26 := by
  unfold threshold
  omega

def shrink (delta place : Nat) : Nat × Nat :=
  if 455 < delta then shrink (delta / 35) (place + 36) else (delta, place)
termination_by delta
decreasing_by exact Nat.div_lt_self (by omega) (by decide)

/-- The bias after a distance `delta`, with `count` characters placed. -/
def adapt (delta count : Nat) (first : Bool) : Nat :=
  let scaled := if first then delta / 700 else delta / 2
  let (rest, place) := shrink (scaled + scaled / count) 0
  place + 36 * rest / (rest + 38)

/-! ## Encoding -/

/-- A number as digits, starting at a place. -/
def number (bias place q : Nat) : Text :=
  let t := threshold place bias
  if q < t then [digit q]
  else digit (t + (q - t) % (36 - t)) :: number bias (place + 36) ((q - t) / (36 - t))
termination_by q
decreasing_by
  obtain ⟨h1, h2⟩ := threshold_bounds place bias
  exact Nat.lt_of_le_of_lt (Nat.div_le_self _ _) (by omega)

structure Progress where
  out : Text
  delta : Nat
  bias : Nat
  placed : Nat

/-- Passes one character of the label while the code point `point` is placed. -/
def pass (basics point : Nat) (s : Progress) (c : Char) : Progress :=
  if c.toNat < point then { s with delta := s.delta + 1 }
  else if c.toNat = point then
    { out := s.out ++ number s.bias 36 s.delta
      delta := 0
      bias := adapt s.delta (s.placed + 1) (s.placed == basics)
      placed := s.placed + 1 }
  else s

/-- Places the code points of a rising list; `reached` is the first one not passed yet. -/
def place (label : Text) (basics : Nat) : List Nat → Nat → Progress → Progress
  | [], _, s => s
  | point :: points, reached, s =>
    let s := { s with delta := s.delta + (point - reached) * (s.placed + 1) }
    let s := label.foldl (pass basics point) s
    place label basics points (point + 1) { s with delta := s.delta + 1 }

/-- A rising list with one more number. -/
def insertPoint (n : Nat) : List Nat → List Nat
  | [] => [n]
  | m :: r => if n < m then n :: m :: r else if n = m then m :: r else m :: insertPoint n r

def isAscii (c : Char) : Bool :=
  c.toNat < 128

def encode (label : Text) : Text :=
  let basic := label.filter isAscii
  let points := (label.filter (!isAscii ·)).foldr (fun c ps => insertPoint c.toNat ps) []
  let start : Progress := ⟨[], 0, 72, basic.length⟩
  basic ++ (if basic.isEmpty then [] else ['-']) ++
    (place label basic.length points 128 start).out

/-! ## Decoding -/

/-- Adds the number at the front of a text, from a place on, to `sum`. -/
def readNumber (bias : Nat) : Nat → Nat → Nat → Text → Option (Nat × Text)
  | _, _, _, [] => none
  | place, weight, sum, c :: r =>
    match value? c with
    | none => none
    | some d =>
      let t := threshold place bias
      if d < t then some (sum + d * weight, r)
      else readNumber bias (place + 36) (weight * (36 - t)) (sum + d * weight) r

theorem length_lt_of_readNumber {bias place weight sum n : Nat} {t r : Text}
    (h : readNumber bias place weight sum t = some (n, r)) : r.length < t.length := by
  induction t generalizing place weight sum with
  | nil => simp [readNumber] at h
  | cons c t ih =>
    simp only [readNumber] at h
    split at h
    · cases h
    · split at h
      · cases h
        simp
      · exact Nat.lt_succ_of_lt (ih h)

/-- Inserts the characters that a text of numbers describes. -/
def insertAll (bias point index : Nat) (out : Text) (t : Text) : Option Text :=
  if t.isEmpty then some out
  else
    match _h : readNumber bias 36 1 index t with
    | none => none
    | some (next, r) =>
      let count := out.length + 1
      let point := point + next / count
      if point.isValidChar then
        insertAll (adapt (next - index) count (index == 0)) point (next % count + 1)
          (out.insertIdx (next % count) (Char.ofNat point)) r
      else none
termination_by t.length
decreasing_by exact length_lt_of_readNumber _h

def decode? (t : Text) : Option Text :=
  let (basic, rest) := (Text.cutLast? '-' t).getD ([], t)
  if basic.all isAscii then insertAll 72 128 0 basic rest else none

end SplitDns.Punycode
