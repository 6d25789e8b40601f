/-!
# Texts and bytes

A text is a list of characters and a byte string a list of octets. This module holds the ways in
which configuration values, rule lines and names are cut up: blanks are the characters with the
Unicode property `White_Space`, and letter case is folded for ASCII letters only.
-/

namespace SplitDns

abbrev Text := List Char

abbrev Bytes := List UInt8

namespace Text

/-- The characters with the Unicode property `White_Space`. -/
def isBlank (c : Char) : Bool :=
  let n := c.toNat
  (0x09 ≤ n && n ≤ 0x0d) || n == 0x20 || n == 0x85 || n == 0xa0 || n == 0x1680 ||
    (0x2000 ≤ n && n ≤ 0x200a) || n == 0x2028 || n == 0x2029 || n == 0x202f || n == 0x205f ||
    n == 0x3000

/-- ASCII letters become small, all else stays. -/
def lower (t : Text) : Text :=
  t.map Char.toLower

/-- ASCII letters become capital, all else stays. -/
def upper (t : Text) : Text :=
  t.map Char.toUpper

/-- Drops the longest tail whose characters all satisfy `p`. -/
def dropTailWhile (p : Char → Bool) (t : Text) : Text :=
  (t.reverse.dropWhile p).reverse

def trim (t : Text) : Text :=
  dropTailWhile isBlank (t.dropWhile isBlank)

/-- What follows `lead` in a text that starts with it. -/
def after? (lead t : Text) : Option Text :=
  if lead.isPrefixOf t then some (t.drop lead.length) else none

/-- What precedes `tail` in a text that ends with it. -/
def before? (tail t : Text) : Option Text :=
  if tail.isSuffixOf t then some (t.take (t.length - tail.length)) else none

/-! ## Cutting at separators -/

/-- The pieces between separators; one more than there are separators. -/
def split (p : Char → Bool) : Text → List Text
  | [] => [[]]
  | c :: r =>
    if p c then [] :: split p r
    else
      match split p r with
      | [] => [[c]]
      | piece :: pieces => (c :: piece) :: pieces

theorem split_ne_nil (p : Char → Bool) (t : Text) : split p t ≠ [] := by
  cases t with
  | nil => simp [split]
  | cons c r =>
    by_cases h : p c
    · simp [split, h]
    · cases hs : split p r <;> simp [split, h, hs]

theorem split_append {p : Char → Bool} {s : Text} {b : Char} (hs : ∀ c ∈ s, p c = false)
    (hb : p b = true) (t : Text) : split p (s ++ b :: t) = s :: split p t := by
  induction s with
  | nil => exact if_pos hb
  | cons c s ih =>
    obtain ⟨hc, hs⟩ := List.forall_mem_cons.1 hs
    rw [List.cons_append, split, if_neg (by simp [hc]), ih hs]

/-- A text without separators is one piece. -/
theorem split_eq_singleton {p : Char → Bool} {t : Text} (h : ∀ c ∈ t, p c = false) :
    split p t = [t] := by
  induction t with
  | nil => rfl
  | cons c t ih =>
    obtain ⟨hc, ht⟩ := List.forall_mem_cons.1 h
    rw [split, if_neg (by simp [hc]), ih ht]

/-- The pieces between runs of blanks. -/
def words (t : Text) : List Text :=
  (split isBlank t).filter (!·.isEmpty)

/-- The part before the first `c` and the part after it. -/
def cutFirst? (c : Char) : Text → Option (Text × Text)
  | [] => none
  | d :: r => if d = c then some ([], r) else (cutFirst? c r).map fun (a, b) => (d :: a, b)

/-- The part before the last `c` and the part after it. -/
def cutLast? (c : Char) : Text → Option (Text × Text)
  | [] => none
  | d :: r =>
    match cutLast? c r with
    | some (a, b) => some (d :: a, b)
    | none => if d = c then some ([], r) else none

/-- A line without the carriage return that closes it. -/
def dropReturn (line : Text) : Text :=
  (before? ['\r'] line).getD line

/-- Pieces between line feeds as lines: a carriage return before a line feed belongs to the line
ending, and nothing after the last line feed is no line. -/
def closeLines : List Text → List Text
  | [] => []
  | [last] => if last.isEmpty then [] else [last]
  | line :: next :: rest => dropReturn line :: closeLines (next :: rest)

def lines (t : Text) : List Text :=
  closeLines (split (· == '\n') t)

/-- The number of places at which `pattern` starts. -/
def occurrences (pattern : Text) : Text → Nat
  | [] => if pattern.isEmpty then 1 else 0
  | c :: r => (if pattern.isPrefixOf (c :: r) then 1 else 0) + occurrences pattern r

/-- The texts one after the other with `glue` between them. -/
def join (glue : Text) (ts : List Text) : Text :=
  glue.intercalate ts

end Text

end SplitDns
