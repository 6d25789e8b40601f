import SplitDns.Domain

/-!
# Rule lines

One line of an adblock-style list names a domain to block, or with `@@` in front an exception.
Comments, headers, regular expressions and wildcards name none. What follows the host in a line is
ignored.
-/

namespace SplitDns

inductive Rule where
  | block (domain : Text)
  | exempt (domain : Text)
  deriving DecidableEq, Repr, Inhabited

namespace Rule

def domain : Rule → Text
  | block d => d
  | exempt d => d

/-- A pattern between slashes is a regular expression; `*` is a wildcard. -/
def isPlain (pattern : Text) : Bool :=
  !(pattern.head? == some '/' && pattern.getLast? == some '/') && !pattern.contains '*'

/-- A pattern without the mark that anchors it. After a single bar only a URL may follow. -/
def anchored? (pattern : Text) : Option Text :=
  match pattern with
  | '|' :: '|' :: r => some r
  | '|' :: r => (Text.after? "http://".toList r).or (Text.after? "https://".toList r)
  | '.' :: r => some r
  | _ => some pattern

/-- The characters that end a host. -/
def endsHost (c : Char) : Bool :=
  c == '/' || c == '^' || c == '?' || c == ':'

/-- The host at the front of a pattern, in canonical form and without dots around it. -/
def host (pattern : Text) : Text :=
  Text.lower (Domain.stripDots ((pattern.takeWhile fun c => !endsHost c).dropWhile (· == '.')))

def pattern? (pattern : Text) : Option Text :=
  if isPlain pattern then
    (anchored? pattern).bind fun rest =>
      let d := host rest
      if d.isEmpty || d.any Text.isBlank then none else some d
  else none

def parse? (line : Text) : Option Rule :=
  match Text.trim line with
  | [] => none
  | '!' :: _ => none
  | '[' :: _ => none
  | '@' :: '@' :: r => (pattern? r).map exempt
  | t => (pattern? t).map block

end Rule

end SplitDns
