import SplitDns.Toml.Scalar

/-!
# Reading documents

A document is read line by line: headers open tables, and the keys after them are set there. Arrays
and inline tables may go over several lines and have a comma after their last item.
-/

namespace SplitDns.Toml

/-! ## Blanks and comments -/

/-- What follows a line end, if there is one. -/
def lineEnd? : Text → Option Text
  | '\n' :: r => some r
  | '\r' :: '\n' :: r => some r
  | _ => none

/-- Leaves out a comment, up to the line end. -/
def comment? : Text → Option Text
  | [] => some []
  | '\n' :: r => some ('\n' :: r)
  | '\r' :: '\n' :: r => some ('\r' :: '\n' :: r)
  | c :: r => if isTextChar c then comment? r else none

/-- Leaves out blanks and a comment, then a line end unless the document ends. -/
def finishLine? (t : Text) : Option Text :=
  match t.dropWhile isBlank with
  | [] => some []
  | '#' :: r => (comment? r).bind fun r => if r.isEmpty then some [] else lineEnd? r
  | r => lineEnd? r

/-- Leaves out blanks, comments and line ends. -/
def skip? : Nat → Text → Option Text
  | 0, _ => none
  | fuel + 1, t =>
    match t.dropWhile isBlank with
    | '#' :: r => (comment? r).bind (skip? fuel)
    | r =>
      match lineEnd? r with
      | some r => skip? fuel r
      | none => some r

/-! ## Keys -/

def isKeyChar (c : Char) : Bool :=
  c.isAlphanum || c == '_' || c == '-'

/-- A bare or quoted key. -/
def simpleKey? : Text → Option (Text × Text)
  | '"' :: r => basic r
  | '\x27' :: r => literal r
  | t =>
    let word := t.takeWhile isKeyChar
    if word.isEmpty then none else some (word, t.drop word.length)

/-- Keys parted by dots, with blanks around them. -/
def key? : Nat → Text → Option (List Text × Text)
  | 0, _ => none
  | fuel + 1, t => do
    let (k, r) ← simpleKey? (t.dropWhile isBlank)
    match r.dropWhile isBlank with
    | '.' :: r => do
      let (ks, r) ← key? fuel r
      return (k :: ks, r)
    | r => return ([k], r)

/-! ## Values -/

mutual

def value? : Nat → Text → Option (Value × Text)
  | 0, _ => none
  | fuel + 1, t =>
    match t with
    | '"' :: '"' :: '"' :: r =>
      (basicLines false (dropFirstLineEnd r)).map fun (s, r) => (.string s, r)
    | '"' :: r => (basic r).map fun (s, r) => (.string s, r)
    | '\x27' :: '\x27' :: '\x27' :: r =>
      (literalLines (dropFirstLineEnd r)).map fun (s, r) => (.string s, r)
    | '\x27' :: r => (literal r).map fun (s, r) => (.string s, r)
    | '[' :: r => (items? fuel r).map fun (vs, r) => (.array vs, r)
    | '\x7b' :: r => (members? fuel [] r).map fun (es, r) => (.table (toValues es), r)
    | t =>
      let (word, r) := scalarText t
      (scalarValue? word).map (·, r)

/-- The items of an array, from its start or after a comma. -/
def items? : Nat → Text → Option (List Value × Text)
  | 0, _ => none
  | fuel + 1, t => do
    match ← skip? (fuel + 1) t with
    | ']' :: r => return ([], r)
    | t => do
      let (v, r) ← value? fuel t
      match ← skip? (fuel + 1) r with
      | ']' :: r => return ([v], r)
      | ',' :: r => do
        let (vs, r) ← items? fuel r
        return (v :: vs, r)
      | _ => none

/-- The keys of an inline table after those in `es`, from its start or after a comma. -/
def members? : Nat → Entries → Text → Option (Entries × Text)
  | 0, _, _ => none
  | fuel + 1, es, t => do
    match ← skip? (fuel + 1) t with
    | '\x7d' :: r => return (es, r)
    | t => do
      let (k, r) ← key? (fuel + 1) t
      match r with
      | '=' :: r => do
        let (v, r) ← value? fuel (r.dropWhile isBlank)
        let es ← es.set? k v
        match ← skip? (fuel + 1) r with
        | '\x7d' :: r => return (es, r)
        | ',' :: r => members? fuel es r
        | _ => none
      | _ => none

end

/-! ## Documents -/

/-- The tables so far, and the path of the one that keys are set in. -/
structure Progress where
  entries : Entries
  path : List Text
  deriving Inhabited

namespace Progress

def header? (p : Progress) (fuel : Nat) (openLast : Text → Entries → Option Entries)
    (close : Text) (t : Text) : Option (Progress × Text) := do
  let (path, r) ← key? fuel t
  let r ← Text.after? close r
  let r ← finishLine? r
  let entries ← p.entries.enter? openLast path
  return (⟨entries, path⟩, r)

def pair? (p : Progress) (fuel : Nat) (t : Text) : Option (Progress × Text) := do
  let (k, r) ← key? fuel t
  let r ← Text.after? ['='] r
  let (v, r) ← value? fuel (r.dropWhile isBlank)
  let r ← finishLine? r
  let entries ← p.entries.change? (Entries.set? k v) p.path
  return ({ p with entries := entries }, r)

def line? (p : Progress) (fuel : Nat) (t : Text) : Option (Progress × Text) :=
  match t.dropWhile isBlank with
  | '[' :: '[' :: r => p.header? fuel Entries.openRow [']', ']'] r
  | '[' :: r => p.header? fuel Entries.openTable [']'] r
  | r =>
    match finishLine? r with
    | some r => some (p, r)
    | none => p.pair? fuel r

/-- Reads lines to the end; each takes at least one character. -/
def lines? : Nat → Progress → Text → Option Progress
  | _, p, [] => some p
  | 0, _, _ => none
  | fuel + 1, p, t => do
    let (p, r) ← p.line? (t.length + 1) t
    lines? fuel p r

end Progress

/-- A byte order mark at the start is left out. -/
def dropMark : Text → Text
  | '\ufeff' :: r => r
  | t => t

/-- The root table of a document. -/
def parse? (t : Text) : Option (List (Text × Value)) :=
  let t := dropMark t
  (Progress.lines? (t.length + 1) ⟨[], []⟩ t).map fun p => toValues p.entries

end SplitDns.Toml
