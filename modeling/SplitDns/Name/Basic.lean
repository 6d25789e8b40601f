import SplitDns.Text.Basic

/-!
# Domain names

A name is a list of labels of arbitrary octets, without the empty root label. In text its labels
are closed by dots; octets that could be mistaken there are escaped.
-/

namespace SplitDns

abbrev Label := Bytes

namespace Name

/-- Octets that labels take on the wire when nothing is abbreviated, with the root label. -/
def wireLength : List Label → Nat
  | [] => 1
  | l :: ls => l.length + 1 + wireLength ls

/-- Labels have 1 to 63 octets, and all of them together fit into 255. -/
def Fits (ls : List Label) : Prop :=
  (∀ l ∈ ls, l ≠ [] ∧ l.length ≤ 63) ∧ wireLength ls ≤ 255

instance (ls : List Label) : Decidable (Fits ls) := by
  unfold Fits
  infer_instance

end Name

structure Name where
  labels : List Label
  fits : Name.Fits labels
  deriving DecidableEq, Repr

namespace Name

def root : Name :=
  ⟨[], by decide⟩

instance : Inhabited Name :=
  ⟨root⟩

def ofLabels? (ls : List Label) : Option Name :=
  if h : Fits ls then some ⟨ls, h⟩ else none

/-! ## Letter case -/

/-- An ASCII letter as a small one. -/
def lowerOctet (b : UInt8) : UInt8 :=
  if 65 ≤ b ∧ b ≤ 90 then b + 32 else b

theorem wireLength_map_lower (ls : List Label) :
    wireLength (ls.map (·.map lowerOctet)) = wireLength ls := by
  induction ls with
  | nil => rfl
  | cons l ls ih => simp [wireLength, ih]

theorem fits_map_lower {ls : List Label} (h : Fits ls) : Fits (ls.map (·.map lowerOctet)) := by
  refine ⟨?_, ?_⟩
  · intro l hl
    obtain ⟨k, hk, rfl⟩ := List.mem_map.1 hl
    have := h.1 k hk
    simpa using this
  · rw [wireLength_map_lower]
    exact h.2

def lower (n : Name) : Name :=
  ⟨n.labels.map (·.map lowerOctet), fits_map_lower n.fits⟩

/-! ## Text -/

def octalDigit (n : Nat) : Char :=
  Char.ofNat (48 + n % 8)

/-- Letters, digits and `_` stand for themselves everywhere in a label, `-` after its first octet
and `*` as its first octet. -/
def isPlain (atStart : Bool) (b : UInt8) : Bool :=
  (97 ≤ b && b ≤ 122) || (65 ≤ b && b ≤ 90) || (48 ≤ b && b ≤ 57) || b == 95 ||
    (b == 45 && !atStart) || (b == 42 && atStart)

/-- Other visible octets follow a backslash, and the rest are written in three octal digits. -/
def octetText (atStart : Bool) (b : UInt8) : Text :=
  if isPlain atStart b then [Char.ofNat b.toNat]
  else if 33 ≤ b && b ≤ 126 then ['\\', Char.ofNat b.toNat]
  else
    let n := b.toNat
    ['\\', octalDigit (n / 64), octalDigit (n / 8), octalDigit n]

def labelText : Label → Text
  | [] => []
  | b :: r => octetText true b ++ r.flatMap (octetText false)

def text (n : Name) : Text :=
  if n.labels.isEmpty then ['.'] else n.labels.flatMap fun l => labelText l ++ ['.']

end Name

end SplitDns
