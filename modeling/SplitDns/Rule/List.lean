import SplitDns.Rule.Line
import SplitDns.Text.Files
import SplitDns.Text.Base64
import SplitDns.Failure

/-!
# Rule lists

A rule list holds for each domain whether some line blocks it and whether some line exempts it. The
verdict on a name is that of its longest suffix, on label boundaries, that the list holds.
-/

namespace SplitDns

structure RuleMarks where
  blocked : Bool
  exempted : Bool
  deriving DecidableEq, Repr, Inhabited

namespace RuleMarks

def none : RuleMarks :=
  ⟨false, false⟩

/-- An exception prevails over a block of the same domain. -/
def verdict (m : RuleMarks) : Bool :=
  m.blocked && !m.exempted

def add (m : RuleMarks) : Rule → RuleMarks
  | .block _ => { m with blocked := true }
  | .exempt _ => { m with exempted := true }

end RuleMarks

/-- The domains of a list, each once, with their marks. -/
structure RuleList where
  entries : List (Text × RuleMarks)
  deriving DecidableEq, Repr, Inhabited

namespace RuleList

def empty : RuleList :=
  ⟨[]⟩

def get? (l : RuleList) (domain : Text) : Option RuleMarks :=
  l.entries.lookup domain

/-- Changes the marks of a domain, which is new with `RuleMarks.none`. -/
def mark (rule : Rule) : List (Text × RuleMarks) → List (Text × RuleMarks)
  | [] => [(rule.domain, RuleMarks.none.add rule)]
  | (d, m) :: r =>
    if d = rule.domain then (d, m.add rule) :: r else (d, m) :: mark rule r

def insert (l : RuleList) (rule : Rule) : RuleList :=
  ⟨mark rule l.entries⟩

def size (l : RuleList) : Nat :=
  l.entries.length

def ofRules (rules : List Rule) : RuleList :=
  rules.foldl insert empty

def ofLines (lines : List Text) : RuleList :=
  ofRules (lines.filterMap Rule.parse?)

def ofText (t : Text) : RuleList :=
  ofLines (Text.lines t)

/-! ## Verdicts -/

/-- The name above, when it is not empty. -/
def parent? (domain : Text) : Option Text :=
  ((Text.cutFirst? '.' domain).map (·.2)).filter (!·.isEmpty)

theorem length_lt_of_cutFirst? {c : Char} {t a b : Text} (h : Text.cutFirst? c t = some (a, b)) :
    b.length < t.length := by
  induction t generalizing a with
  | nil => simp [Text.cutFirst?] at h
  | cons d r ih =>
    simp only [Text.cutFirst?] at h
    split at h
    · cases h
      simp
    · obtain ⟨⟨x, y⟩, hx, hp⟩ := Option.map_eq_some_iff.1 h
      cases hp
      exact Nat.lt_succ_of_lt (ih hx)

theorem length_lt_of_parent? {d p : Text} (h : parent? d = some p) : p.length < d.length := by
  simp only [parent?, Option.filter_eq_some_iff, Option.map_eq_some_iff] at h
  obtain ⟨⟨⟨a, b⟩, hc, rfl⟩, _⟩ := h
  exact length_lt_of_cutFirst? hc

/-- The marks of the longest suffix of a canonical domain that the list holds. -/
def longest? (l : RuleList) (domain : Text) : Option RuleMarks :=
  match l.get? domain with
  | some m => some m
  | none =>
    match _h : parent? domain with
    | some p => longest? l p
    | none => none
termination_by domain.length
decreasing_by exact length_lt_of_parent? _h

/-- Whether a name is blocked; nothing when no rule applies to it. -/
def verdict? (l : RuleList) (domain : Text) : Option Bool :=
  (l.longest? (Domain.canonical domain)).map RuleMarks.verdict

/-! ## Files -/

/-- The text of a base64 file, in which blanks do not count. -/
def base64Text? (raw : Text) : Option Text :=
  (Base64.decode? (raw.filter (!Text.isBlank ·))).bind Utf8.decode?

/-- Loads a list from a file, the whole of which is base64 when `base64` is set. -/
def load (files : Files) (path : Text) (base64 : Bool) : Except Failure RuleList :=
  match files.readText path with
  | .error fault =>
    .error (.io s!"Failed to read rule list {String.ofList path}: {fault.reason}")
  | .ok raw =>
    if base64 then
      match base64Text? raw with
      | some t => .ok (ofText t)
      | none => .error (.config s!"Rule list {String.ofList path} is not valid base64")
    else .ok (ofText raw)

end RuleList

end SplitDns
