import SplitDns.Text.Basic

/-!
# Decimal and hexadecimal numbers

Numbers in addresses, ports and TTLs are written without sign or leading zeros. They are read with
leading zeros, a bound, and where a number stands alone also with one leading `+`.
-/

namespace SplitDns.Digits

/-- The character of a digit below sixteen. -/
def char (d : Nat) : Char :=
  if d < 10 then Char.ofNat (48 + d) else Char.ofNat (87 + d)

/-- The value of a digit in base sixteen, of either letter case. -/
def value? (c : Char) : Option Nat :=
  let n := c.toNat
  if 48 ≤ n && n ≤ 57 then some (n - 48)
  else if 97 ≤ n && n ≤ 102 then some (n - 87)
  else if 65 ≤ n && n ≤ 70 then some (n - 55)
  else none

/-- The digits of `n` in `base`, most significant first. -/
def text (base n : Nat) : Text :=
  if base < 2 ∨ n < base then [char n]
  else text base (n / base) ++ [char (n % base)]
termination_by n
decreasing_by
  have hb : 2 ≤ base := by omega
  exact Nat.div_lt_self (by omega) hb

/-- Continues a number whose digits so far have the value `n`. -/
def readFrom (base : Nat) : Nat → Text → Option Nat
  | n, [] => some n
  | n, c :: r =>
    match value? c with
    | some d => if d < base then readFrom base (n * base + d) r else none
    | none => none

/-- The value of a text that consists of digits, at least one. -/
def read? (base : Nat) (t : Text) : Option Nat :=
  if t.isEmpty then none else readFrom base 0 t

end SplitDns.Digits

namespace SplitDns.Decimal

def text (n : Nat) : Text :=
  Digits.text 10 n

/-- A number of at most `bound`. -/
def read? (bound : Nat) (t : Text) : Option Nat :=
  (Digits.read? 10 t).filter (· ≤ bound)

/-- A number of at most `bound` that stands alone, where one leading `+` is allowed. -/
def readAlone? (bound : Nat) : Text → Option Nat
  | '+' :: r => read? bound r
  | t => read? bound t

def word16? (t : Text) : Option UInt16 :=
  (readAlone? 65535 t).map UInt16.ofNat

def word32? (t : Text) : Option UInt32 :=
  (readAlone? 4294967295 t).map UInt32.ofNat

end SplitDns.Decimal

namespace SplitDns.Hex

/-- The two digits of an octet. -/
def octet (b : UInt8) : Text :=
  [Digits.char (b.toNat / 16), Digits.char (b.toNat % 16)]

def text (bs : Bytes) : Text :=
  bs.flatMap octet

/-- Reads pairs of digits of either letter case. -/
def read? : Text → Option Bytes
  | [] => some []
  | [_] => none
  | c :: d :: r => do
    let high ← Digits.value? c
    let low ← Digits.value? d
    let rest ← read? r
    return UInt8.ofNat (high * 16 + low) :: rest

end SplitDns.Hex
