import SplitDns.Toml.Basic

/-!
# Scalars

Strings in their four forms, and the values that are written without quotes.
-/

namespace SplitDns.Toml

/-- Controls other than the tab stand in no string and no comment. -/
def isTextChar (c : Char) : Bool :=
  c == '\t' || (' ' ≤ c && c != '\x7f')

def isBlank (c : Char) : Bool :=
  c == ' ' || c == '\t'

/-! ## Strings -/

/-- The character with a code in hexadecimal digits. -/
def codeChar? (digits : Text) : Option Char := do
  let n ← Digits.read? 16 digits
  if n.isValidChar then some (Char.ofNat n) else none

/-- The characters of escapes of two characters. -/
def escapeChar? : Char → Option Char
  | 'b' => some '\x08'
  | 't' => some '\t'
  | 'n' => some '\n'
  | 'f' => some '\x0c'
  | 'r' => some '\r'
  | 'e' => some '\x1b'
  | '"' => some '"'
  | '\\' => some '\\'
  | _ => none

/-- Adds a character to the text that was read. -/
def cons (c : Option Char) (rest : Option (Text × Text)) : Option (Text × Text) := do
  let c ← c
  let (s, r) ← rest
  return (c :: s, r)

/-- A string up to its closing quote. -/
def basic : Text → Option (Text × Text)
  | [] => none
  | '"' :: r => some ([], r)
  | '\\' :: 'x' :: a :: b :: r => cons (codeChar? [a, b]) (basic r)
  | '\\' :: 'u' :: a :: b :: c :: d :: r => cons (codeChar? [a, b, c, d]) (basic r)
  | '\\' :: 'U' :: a :: b :: c :: d :: e :: f :: g :: h :: r =>
    cons (codeChar? [a, b, c, d, e, f, g, h]) (basic r)
  | '\\' :: c :: r => cons (escapeChar? c) (basic r)
  | c :: r => if isTextChar c then cons (some c) (basic r) else none

/-- Whether only blanks stand before the end of the line. -/
def lineEnds (t : Text) : Bool :=
  match t.dropWhile isBlank with
  | '\n' :: _ => true
  | '\r' :: '\n' :: _ => true
  | _ => false

/-- A string of several lines up to its three closing quotes, before which two more may stand. In a
gap, which a backslash at the end of a line opens, blanks and line ends are left out. -/
def basicLines : Bool → Text → Option (Text × Text)
  | _, [] => none
  | _, '"' :: '"' :: '"' :: '"' :: '"' :: r => some (['"', '"'], r)
  | _, '"' :: '"' :: '"' :: '"' :: r => some (['"'], r)
  | _, '"' :: '"' :: '"' :: r => some ([], r)
  | _, '\\' :: 'x' :: a :: b :: r => cons (codeChar? [a, b]) (basicLines false r)
  | _, '\\' :: 'u' :: a :: b :: c :: d :: r =>
    cons (codeChar? [a, b, c, d]) (basicLines false r)
  | _, '\\' :: 'U' :: a :: b :: c :: d :: e :: f :: g :: h :: r =>
    cons (codeChar? [a, b, c, d, e, f, g, h]) (basicLines false r)
  | _, '\\' :: c :: r =>
    if lineEnds (c :: r) then basicLines true (c :: r)
    else cons (escapeChar? c) (basicLines false r)
  | gap, '\r' :: '\n' :: r =>
    if gap then basicLines true r else cons (some '\n') (basicLines false r)
  | gap, c :: r =>
    if gap && (isBlank c || c == '\n') then basicLines true r
    else if isTextChar c || c == '\n' then cons (some c) (basicLines false r)
    else none

def literal : Text → Option (Text × Text)
  | [] => none
  | '\x27' :: r => some ([], r)
  | c :: r => if isTextChar c then cons (some c) (literal r) else none

def literalLines : Text → Option (Text × Text)
  | [] => none
  | '\x27' :: '\x27' :: '\x27' :: '\x27' :: '\x27' :: r => some (['\x27', '\x27'], r)
  | '\x27' :: '\x27' :: '\x27' :: '\x27' :: r => some (['\x27'], r)
  | '\x27' :: '\x27' :: '\x27' :: r => some ([], r)
  | '\r' :: '\n' :: r => cons (some '\n') (literalLines r)
  | c :: r => if isTextChar c || c == '\n' then cons (some c) (literalLines r) else none

/-- A line end right after the opening quotes is left out. -/
def dropFirstLineEnd : Text → Text
  | '\n' :: r => r
  | '\r' :: '\n' :: r => r
  | t => t

/-! ## Numbers -/

/-- Digits of a base, between which single underscores may stand. -/
def digits? (base : Nat) (t : Text) : Option Nat :=
  let groups := Text.split (· == '_') t
  if groups.any (·.isEmpty) then none else Digits.read? base groups.flatten

/-- Digits of which only `0` itself starts with a zero. -/
def plainDigits? (t : Text) : Option Nat :=
  if t.length ≠ 1 ∧ t.head? = some '0' then none else digits? 10 t

/-- Takes off a sign. -/
def unsigned : Text → Bool × Text
  | '+' :: r => (false, r)
  | '-' :: r => (true, r)
  | t => (false, t)

def integer? : Text → Option Int
  | '0' :: 'x' :: r => (digits? 16 r).map Int.ofNat
  | '0' :: 'o' :: r => (digits? 8 r).map Int.ofNat
  | '0' :: 'b' :: r => (digits? 2 r).map Int.ofNat
  | t =>
    let (negative, r) := unsigned t
    (plainDigits? r).map fun n => if negative then -Int.ofNat n else Int.ofNat n

def isExponent (t : Text) : Bool :=
  (digits? 10 (unsigned t).2).isSome

/-- A float has a fraction, an exponent or both, or is `inf` or `nan`. -/
def isFloat (t : Text) : Bool :=
  let r := (unsigned t).2
  if r = "inf".toList ∨ r = "nan".toList then true
  else
    let mantissa := r.takeWhile fun c => c != 'e' && c != 'E'
    let exponent := (r.dropWhile fun c => c != 'e' && c != 'E').drop 1
    let whole := mantissa.takeWhile (· != '.')
    let fraction := (mantissa.dropWhile (· != '.')).drop 1
    (plainDigits? whole).isSome &&
      (whole.length == mantissa.length || (digits? 10 fraction).isSome) &&
      (mantissa.length == r.length || isExponent exponent) &&
      whole.length != r.length

/-! ## Dates and times -/

/-- A number of exactly `size` digits. -/
def fixed? (size : Nat) (t : Text) : Option Nat :=
  if t.length = size then Digits.read? 10 t else none

def daysIn (year month : Nat) : Nat :=
  if month = 2 then
    if year % 4 = 0 ∧ (year % 100 ≠ 0 ∨ year % 400 = 0) then 29 else 28
  else if month = 4 ∨ month = 6 ∨ month = 9 ∨ month = 11 then 30
  else 31

def isDate (t : Text) : Bool :=
  match Text.split (· == '-') t with
  | [y, m, d] =>
    match fixed? 4 y, fixed? 2 m, fixed? 2 d with
    | some year, some month, some day =>
      1 ≤ month && month ≤ 12 && 1 ≤ day && day ≤ daysIn year month
    | _, _, _ => false
  | _ => false

def isSecond (t : Text) : Bool :=
  match Text.split (· == '.') t with
  | [s] => (fixed? 2 s).any (· ≤ 60)
  | [s, f] => (fixed? 2 s).any (· ≤ 60) && (Digits.read? 10 f).isSome
  | _ => false

/-- Hours and minutes, perhaps seconds and parts of them. -/
def isTime (t : Text) : Bool :=
  match Text.split (· == ':') t with
  | [h, m] => (fixed? 2 h).any (· ≤ 23) && (fixed? 2 m).any (· ≤ 59)
  | [h, m, s] => (fixed? 2 h).any (· ≤ 23) && (fixed? 2 m).any (· ≤ 59) && isSecond s
  | _ => false

def isOffset (t : Text) : Bool :=
  match Text.split (· == ':') t with
  | [h, m] => (fixed? 2 h).any (· ≤ 23) && (fixed? 2 m).any (· ≤ 59)
  | _ => false

/-- A time, perhaps with `Z` or an offset after it. -/
def isZonedTime (t : Text) : Bool :=
  let time := t.takeWhile fun c => c != 'Z' && c != 'z' && c != '+' && c != '-'
  match t.drop time.length with
  | [] => isTime time
  | ['Z'] => isTime time
  | ['z'] => isTime time
  | '+' :: offset => isTime time && isOffset offset
  | '-' :: offset => isTime time && isOffset offset
  | _ => false

def isDatetime (t : Text) : Bool :=
  isTime t || isDate t ||
    (isDate (t.take 10) && (match t.drop 10 with
      | c :: time => (c == 'T' || c == 't' || c == ' ') && isZonedTime time
      | [] => false))

/-! ## Values without quotes -/

def isScalarChar (c : Char) : Bool :=
  c.isAlphanum || c == '_' || c == '+' || c == '-' || c == '.' || c == ':'

/-- The characters of a value without quotes; a date may be followed by a blank and a time. -/
def scalarText (t : Text) : Text × Text :=
  let word := t.takeWhile isScalarChar
  let rest := t.drop word.length
  match rest with
  | ' ' :: c :: _ =>
    if isDate word && c.isDigit then
      let time := (rest.drop 1).takeWhile isScalarChar
      (word ++ ' ' :: time, rest.drop (time.length + 1))
    else (word, rest)
  | _ => (word, rest)

def scalarValue? (t : Text) : Option Value :=
  if t = "true".toList then some (.boolean true)
  else if t = "false".toList then some (.boolean false)
  else
    match integer? t with
    | some n => some (.integer n)
    | none =>
      if isFloat t then some .float else if isDatetime t then some .datetime else none

end SplitDns.Toml
