import Mathlib.Data.List.DropRight
import SplitDns.Domain

/-!
# The canonical form of domains

Domains are compared without the dots at their end and in small letters, and names in hosts tables
without the blanks around them as well.  Both forms are given here by the shape of a text, as what
is left when nothing more can be taken off (`Text.Trimmed`, `Domain.Canonical`).  Each text has one
such form, and it is the one that is computed (`Text.trimmed_iff`, `Domain.canonical_iff`).
-/

namespace SplitDns

namespace Text

variable {p : Char → Bool} {t body : Text}

theorem dropWhile_eq_iff :
    t.dropWhile p = body ↔ ∃ lead, t = lead ++ body ∧ (∀ c ∈ lead, p c = true) ∧
      ∀ c, body.head? = some c → p c = false := by
  constructor
  · rintro rfl
    refine ⟨t.takeWhile p, List.takeWhile_append_dropWhile.symm,
      fun c hc => List.mem_takeWhile_imp hc, fun c hc => ?_⟩
    simpa [hc] using List.head?_dropWhile_not p t
  · rintro ⟨lead, rfl, hlead, hfirst⟩
    rw [List.dropWhile_append_of_pos hlead]
    cases body with
    | nil => rfl
    | cons c body => exact List.dropWhile_cons_of_neg (by simp [hfirst c rfl])

/-- Dropping at the end is dropping at the front of the reversed text. -/
theorem dropTailWhile_eq_iff :
    dropTailWhile p t = body ↔ ∃ tail, t = body ++ tail ∧ (∀ c ∈ tail, p c = true) ∧
      ∀ c, body.getLast? = some c → p c = false := by
  rw [dropTailWhile, List.reverse_eq_iff, dropWhile_eq_iff]
  simp only [List.head?_reverse]
  constructor
  · rintro ⟨lead, ht, hlead, hlast⟩
    exact ⟨lead.reverse, by simpa using congrArg List.reverse ht, by simpa using hlead, hlast⟩
  · rintro ⟨tail, rfl, htail, hlast⟩
    exact ⟨tail.reverse, List.reverse_append, by simpa using htail, hlast⟩

/-- What a text holds between the blanks around it. -/
inductive Trimmed : Text → Text → Prop
  | intro {before body after : Text} (hbefore : ∀ c ∈ before, isBlank c = true)
      (hafter : ∀ c ∈ after, isBlank c = true)
      (hfirst : ∀ c, body.head? = some c → isBlank c = false)
      (hlast : ∀ c, body.getLast? = some c → isBlank c = false) :
      Trimmed (before ++ body ++ after) body

theorem trimmed_iff : Trimmed t body ↔ trim t = body := by
  constructor
  · rintro ⟨hbefore, hafter, hfirst, hlast⟩
    rw [trim, List.append_assoc, List.dropWhile_append_of_pos hbefore]
    -- Without a body the blanks after it are dropped in front already.
    cases body with
    | nil =>
      rw [List.nil_append, List.dropWhile_eq_nil_iff.2 hafter]
      rfl
    | cons c body =>
      rw [List.cons_append, List.dropWhile_cons_of_neg (by simp [hfirst c rfl])]
      exact dropTailWhile_eq_iff.2 ⟨_, rfl, hafter, hlast⟩
  · intro h
    obtain ⟨before, ht, hbefore, hfirst⟩ := dropWhile_eq_iff.1 (Eq.refl (t.dropWhile isBlank))
    obtain ⟨after, hrest, hafter, hlast⟩ := dropTailWhile_eq_iff.1 h
    rw [ht, hrest, ← List.append_assoc]
    refine .intro hbefore hafter (fun c hc => hfirst c ?_) hlast
    rw [hrest, List.head?_append, hc]
    rfl

end Text

namespace Domain

/-- The form in which domains are compared: what stands before the dots at the end of a text, with
its ASCII letters in lower case. -/
inductive Canonical : Text → Text → Prop
  | intro {body dots : Text} (hdots : ∀ c ∈ dots, c = '.') (hlast : body.getLast? ≠ some '.') :
      Canonical (body ++ dots) (body.map Char.toLower)

variable {t body name : Text}

theorem stripDots_eq_iff :
    stripDots t = body ↔
      ∃ dots, t = body ++ dots ∧ (∀ c ∈ dots, c = '.') ∧ body.getLast? ≠ some '.' := by
  rw [stripDots, Text.dropTailWhile_eq_iff]
  simp only [beq_iff_eq, beq_eq_false_iff_ne]
  refine exists_congr fun dots => and_congr_right fun _ => and_congr_right fun _ => ?_
  exact ⟨fun h hdot => h _ hdot rfl, fun h c hc hdot => h (hdot ▸ hc)⟩

theorem stripDots_eq_self (h : t.getLast? ≠ some '.') : stripDots t = t :=
  stripDots_eq_iff.2 ⟨[], (List.append_nil t).symm, by simp, h⟩

theorem stripDots_append {dots : Text} (h : ∀ c ∈ dots, c = '.') :
    stripDots (t ++ dots) = stripDots t := by
  obtain ⟨tail, ht, htail, hlast⟩ := stripDots_eq_iff.1 (Eq.refl (stripDots t))
  refine stripDots_eq_iff.2 ⟨tail ++ dots, by rw [← List.append_assoc, ← ht], ?_, hlast⟩
  exact List.forall_mem_append.2 ⟨htail, h⟩

theorem canonical_iff : Canonical t name ↔ canonical t = name := by
  constructor
  · rintro ⟨hdots, hlast⟩
    rw [canonical, stripDots_eq_iff.2 ⟨_, rfl, hdots, hlast⟩]
    rfl
  · rintro rfl
    obtain ⟨dots, ht, hdots, hlast⟩ := stripDots_eq_iff.1 (Eq.refl (stripDots t))
    have hcanonical : Canonical (stripDots t ++ dots) (canonical t) := .intro hdots hlast
    rwa [← ht] at hcanonical

end Domain

end SplitDns
