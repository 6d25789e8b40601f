import SplitDns.Name.Basic
import SplitDns.Name.Idna
import SplitDns.Text.Utf8

/-!
# Reading names

The text of a name is cut into labels at dots. A backslash takes away the meaning of the character
after it, or gives a character by three octal digits. Labels that do not start with `_` are brought
into their ASCII form.
-/

namespace SplitDns.Name

/-- Where reading stands within a label: at a character, or after a backslash and some digits. -/
inductive Escape where
  | plain
  | start
  | one (a : Nat)
  | two (a b : Nat)
  deriving DecidableEq, Repr

/-- The characters that count as digits after a backslash; those beyond ASCII are refused there. -/
def isNumeric (c : Char) : Bool :=
  c.isDigit || c.toNat == 0xb2 || c.toNat == 0xb3 || c.toNat == 0xb9 ||
    (0xbc ≤ c.toNat && c.toNat ≤ 0xbe) || (0x660 ≤ c.toNat && c.toNat ≤ 0x669)

def octal? (c : Char) : Option Nat :=
  if '0' ≤ c ∧ c ≤ '7' then some (c.toNat - 48) else none

/-- Characters that only an escape can bring into a label. -/
def isRefused (c : Char) : Bool :=
  c.toNat < 32 || (127 ≤ c.toNat && c.toNat ≤ 159) || Text.isBlank c

/-- The labels of a text as characters. `label` is the part of a label read so far. -/
def cutLabels (state : Escape) (label : Text) : Text → Option (List Text)
  | [] => some (if label.isEmpty then [] else [label])
  | c :: r =>
    match state with
    | .plain =>
      if c = '.' then (cutLabels .plain [] r).map (label :: ·)
      else if c = '\\' then cutLabels .start label r
      else if isRefused c then none
      else cutLabels .plain (label ++ [c]) r
    | .start =>
      if isNumeric c then (octal? c).bind fun a => cutLabels (.one a) label r
      else cutLabels .plain (label ++ [c]) r
    | .one a =>
      (octal? c).bind fun b => cutLabels (.two a b) label r
    | .two a b =>
      (octal? c).bind fun d => cutLabels .plain (label ++ [Char.ofNat (a * 64 + b * 8 + d)]) r

/-- The characters of an ASCII label: letters, digits, `_` and dots, `-` after the first one and `*`
as the first one. -/
def isLabelChar (atStart : Bool) (c : Char) : Bool :=
  c.isAlphanum || c == '_' || c == '.' || (c == '-' && !atStart) || (c == '*' && atStart)

def asciiLabel? (t : Text) : Option Label :=
  match t with
  | [] => none
  | c :: r =>
    if isLabelChar true c && r.all (isLabelChar false) then some (Utf8.encode t) else none

def label? (t : Text) : Option Label :=
  if t.head? = some '_' then asciiLabel? t else (Idna.ascii? t).bind asciiLabel?

/-- The name a text stands for, whether or not it ends with a dot. -/
def parse? (t : Text) : Option Name :=
  if t = ['.'] then some root
  else do
    let labels ← cutLabels .plain [] t
    ofLabels? (← labels.mapM label?)

end SplitDns.Name
