import SplitDns.Route

/-!
# Letter case of domains

The canonical form of a domain, and with it everything that the router says of the domain, does not
depend on the case of ASCII letters.
-/

namespace SplitDns

namespace Text

theorem lt_of_isAlphanum {c : Char} (h : c.isAlphanum = true) : c.toNat < 128 := by
  have hbound : ∀ d : Char, c.val ≤ d.val → c.toNat ≤ d.toNat :=
    fun d hd => UInt32.le_iff_toNat_le.1 hd
  obtain h | hdigit := Bool.or_eq_true_iff.1 h
  · obtain hupper | hlower := Bool.or_eq_true_iff.1 h
    · have hle : c.val ≤ 'Z'.val := (of_decide_eq_true hupper).2
      exact Nat.lt_of_le_of_lt (hbound 'Z' hle) (by decide)
    · have hle : c.val ≤ 'z'.val := of_decide_eq_true (Bool.and_eq_true_iff.1 hlower).2
      exact Nat.lt_of_le_of_lt (hbound 'z' hle) (by decide)
  · have hle : c.val ≤ '9'.val := of_decide_eq_true (Bool.and_eq_true_iff.1 hdigit).2
    exact Nat.lt_of_le_of_lt (hbound '9' hle) (by decide)

/-- A capital ASCII letter becomes small, all else stays. -/
theorem toLower_cases (c : Char) :
    (65 ≤ c.val.toNat ∧ c.val.toNat ≤ 90) ∧ c.toLower.val.toNat = c.val.toNat + 32 ∨
      ¬ (65 ≤ c.val.toNat ∧ c.val.toNat ≤ 90) ∧ c.toLower = c := by
  by_cases h : c.val ≥ 'A'.val ∧ c.val ≤ 'Z'.val
  · have hc : 65 ≤ c.val.toNat ∧ c.val.toNat ≤ 90 := h
    have hv : c.toLower.val = c.val + 32 := by
      delta Char.toLower
      rw [dif_pos h]
      rfl
    refine .inl ⟨hc, ?_⟩
    have h32 : (32 : UInt32).toNat = 32 := rfl
    rw [hv, UInt32.toNat_add, h32]
    exact Nat.mod_eq_of_lt (by omega)
  · refine .inr ⟨h, ?_⟩
    delta Char.toLower
    exact dif_neg h

theorem toLower_toLower (c : Char) : c.toLower.toLower = c.toLower := by
  rcases toLower_cases c.toLower with ⟨h', -⟩ | ⟨-, h'⟩
  · rcases toLower_cases c with ⟨hc, h⟩ | ⟨hc, h⟩
    · omega
    · rw [h] at h'
      exact absurd h' hc
  · exact h'

theorem toLower_beq_dot (c : Char) : (c.toLower == '.') = (c == '.') := by
  rw [Bool.eq_iff_iff, beq_iff_eq, beq_iff_eq]
  rcases toLower_cases c with ⟨hc, h⟩ | ⟨-, h⟩
  · have hdot : '.'.val.toNat = 46 := rfl
    constructor <;> intro he
    · rw [he, hdot] at h
      omega
    · rw [he, hdot] at hc
      omega
  · rw [h]

theorem lower_lower (t : Text) : lower (lower t) = lower t := by
  rw [lower, lower, List.map_map]
  exact List.map_congr_left fun c _ => toLower_toLower c

end Text

namespace Domain

theorem stripDots_lower (t : Text) : stripDots (Text.lower t) = Text.lower (stripDots t) := by
  have hdrop : ∀ s : Text, (s.map Char.toLower).dropWhile (· == '.') =
      (s.dropWhile (· == '.')).map Char.toLower := by
    intro s
    induction s with
    | nil => rfl
    | cons c s ih =>
      rw [List.map_cons, List.dropWhile_cons, List.dropWhile_cons, Text.toLower_beq_dot]
      split
      · exact ih
      · rfl
  rw [stripDots, Text.dropTailWhile, Text.lower, ← List.map_reverse, hdrop, ← List.map_reverse]
  rfl

theorem canonical_lower (t : Text) : canonical (Text.lower t) = canonical t := by
  rw [canonical, stripDots_lower, Text.lower_lower]
  rfl

end Domain

namespace Router

theorem consult_lower (r : Router) (t : Text) : r.consult (Text.lower t) = r.consult t := by
  rw [consult, Domain.canonical_lower]
  rfl

theorem resolve_lower (r : Router) (t : Text) : r.resolve (Text.lower t) = r.resolve t := by
  rw [resolve, consult_lower]
  rfl

end Router

end SplitDns
