import SplitDns.Message.Word
import SplitDns.Name.Basic

/-!
# Reading octets

A cursor is a position in a message and the octets from there on. Reading fails at the end of the
octets. A name may end in a pointer to labels that stand before it in the message.
-/

namespace SplitDns

structure Cursor where
  pos : Nat
  rest : Bytes
  deriving DecidableEq, Repr

abbrev Reader := StateT Cursor Option

/-- The first `n` octets and those after them. -/
def cutOctets? : Nat → Bytes → Option (Bytes × Bytes)
  | 0, bs => some ([], bs)
  | _ + 1, [] => none
  | n + 1, b :: bs => (cutOctets? n bs).map fun (h, t) => (b :: h, t)

theorem eq_append_of_cutOctets? {n : Nat} {bs h t : Bytes} (e : cutOctets? n bs = some (h, t)) :
    bs = h ++ t ∧ h.length = n := by
  induction n generalizing bs h with
  | zero =>
    cases e
    simp
  | succ n ih =>
    cases bs with
    | nil => simp [cutOctets?] at e
    | cons b bs =>
      simp only [cutOctets?, Option.map_eq_some_iff] at e
      obtain ⟨⟨h', t'⟩, he, hp⟩ := e
      cases hp
      obtain ⟨rfl, hl⟩ := ih he
      simp [hl]

theorem length_le_of_cutOctets? {n : Nat} {bs h t : Bytes} (e : cutOctets? n bs = some (h, t)) :
    t.length ≤ bs.length := by
  rw [(eq_append_of_cutOctets? e).1]
  simp

namespace Reader

def take (n : Nat) : Reader Bytes := fun c =>
  (cutOctets? n c.rest).map fun (h, t) => (h, ⟨c.pos + n, t⟩)

def octet : Reader UInt8 := fun c =>
  match c.rest with
  | [] => none
  | b :: r => some (b, ⟨c.pos + 1, r⟩)

def word16 : Reader UInt16 := do
  let a ← octet
  let b ← octet
  return Word.ofOctets16 a b

def word32 : Reader UInt32 := do
  let a ← octet
  let b ← octet
  let c ← octet
  let d ← octet
  return Word.ofOctets32 a b c d

/-- The labels at a cursor. They belong to a run of labels that starts at `start`; all of them,
and the octet that ends them, lie below `ceiling`. A pointer leads to a run that starts before this
one and ends below its start. -/
def labels (whole : Bytes) (ceiling start : Nat) (c : Cursor) : Option (List Label × Cursor) :=
  if ceiling ≤ c.pos then none
  else
    match _hr : c.rest with
    | [] => none
    | b :: r =>
      if b = 0 then some ([], ⟨c.pos + 1, r⟩)
      else if b < 64 then
        match _hc : cutOctets? b.toNat r with
        | none => none
        | some (l, t) =>
          (labels whole ceiling start ⟨c.pos + 1 + b.toNat, t⟩).map fun (ls, d) => (l :: ls, d)
      else if b < 192 then none
      else
        match r with
        | [] => none
        | b' :: r' =>
          let target := (b.toNat - 192) * 256 + b'.toNat
          if target < start then
            (labels whole start target ⟨target, whole.drop target⟩).map
              fun (ls, _) => (ls, ⟨c.pos + 2, r'⟩)
          else none
termination_by (start, c.rest.length)
decreasing_by
  · have hl := length_le_of_cutOctets? _hc
    have hr := congrArg List.length _hr
    simp at hr
    apply Prod.Lex.right
    omega
  · apply Prod.Lex.left
    assumption

def name (whole : Bytes) : Reader Name := fun c => do
  let (ls, d) ← labels whole whole.length c.pos c
  return (← Name.ofLabels? ls, d)

/-- Reads `n` values in a row. -/
def times {α : Type} (one : Reader α) : Nat → Reader (List α)
  | 0 => return []
  | n + 1 => do
    let a ← one
    return a :: (← times one n)

/-- Reads all of the next `n` octets as one value. -/
def within {α : Type} (n : Nat) (one : Reader α) : Reader α := fun c => do
  let (part, rest) ← cutOctets? n c.rest
  let (a, d) ← one ⟨c.pos, part⟩
  if d.rest.isEmpty then some (a, ⟨c.pos + n, rest⟩) else none

end Reader

end SplitDns
