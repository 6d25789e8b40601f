import Mathlib.Data.List.Basic
import SplitDns.Text.Basic

/-!
# Pieces of texts

A text that is cut at separators, at the first or the last place of a character, or behind what it
starts or ends with is put together again from the pieces.
-/

namespace SplitDns.Text

/-! ## All separators -/

/-- Pieces without separators are what a text that joins them is split into. -/
theorem split_join {p : Char → Bool} {b : Char} (hb : p b = true) : ∀ {pieces : List Text},
    pieces ≠ [] → (∀ piece ∈ pieces, ∀ c ∈ piece, p c = false) →
      split p (join [b] pieces) = pieces
  | [], hne, _ => absurd rfl hne
  | [piece], _, h => by
    rw [join, List.intercalate_singleton]
    exact split_eq_singleton (h piece (by simp))
  | piece :: next :: rest, _, h => by
    obtain ⟨hpiece, hrest⟩ := List.forall_mem_cons.1 h
    rw [join, List.intercalate_cons_cons, List.append_assoc, List.singleton_append,
      split_append hpiece hb]
    exact congrArg (piece :: ·) (split_join hb (by simp) hrest)

/-- A character of a text that joins pieces stands in the glue or in a piece. -/
theorem mem_join {glue : Text} {c : Char} : ∀ {pieces : List Text}, c ∈ join glue pieces →
    c ∈ glue ∨ ∃ piece ∈ pieces, c ∈ piece
  | [], h => by simp [join, List.intercalate] at h
  | [piece], h => by
    rw [join, List.intercalate_singleton] at h
    exact .inr ⟨piece, by simp, h⟩
  | piece :: next :: rest, h => by
    rw [join, List.intercalate_cons_cons, List.mem_append, List.mem_append] at h
    rcases h with (h | h) | h
    · exact .inr ⟨piece, by simp, h⟩
    · exact .inl h
    · exact (mem_join h).imp_right fun ⟨p, hp, hc⟩ => ⟨p, List.mem_cons_of_mem _ hp, hc⟩

/-- A character of a text is a separator or stands in a piece. -/
theorem mem_split {p : Char → Bool} {t : Text} {c : Char} (h : c ∈ t) :
    p c = true ∨ ∃ piece ∈ split p t, c ∈ piece := by
  induction t with
  | nil => cases h
  | cons d r ih =>
    unfold split
    by_cases hd : p d = true
    · rw [if_pos hd]
      rcases List.mem_cons.1 h with rfl | h
      · exact .inl hd
      · obtain hc | ⟨piece, hpiece, hc⟩ := ih h
        · exact .inl hc
        · exact .inr ⟨piece, List.mem_cons_of_mem _ hpiece, hc⟩
    · rw [if_neg hd]
      cases hs : split p r with
      | nil => exact absurd hs (split_ne_nil p r)
      | cons first rest =>
        rw [hs] at ih
        rcases List.mem_cons.1 h with rfl | h
        · exact .inr ⟨_, List.mem_cons_self .., List.mem_cons_self ..⟩
        · obtain hc | ⟨piece, hpiece, hc⟩ := ih h
          · exact .inl hc
          · rcases List.mem_cons.1 hpiece with rfl | hpiece
            · exact .inr ⟨_, List.mem_cons_self .., List.mem_cons_of_mem _ hc⟩
            · exact .inr ⟨piece, List.mem_cons_of_mem _ hpiece, hc⟩

theorem length_split (p : Char → Bool) (t : Text) : (split p t).length = t.countP p + 1 := by
  induction t with
  | nil => rfl
  | cons c r ih =>
    unfold split
    by_cases hc : p c = true
    · rw [if_pos hc, List.length_cons, ih, List.countP_cons_of_pos hc]
    · rw [if_neg hc, List.countP_cons_of_neg hc]
      cases hs : split p r with
      | nil => exact absurd hs (split_ne_nil p r)
      | cons first rest =>
        rw [hs] at ih
        exact ih

/-! ## One separator -/

theorem eq_append_of_cutFirst? {c : Char} {t a b : Text} (h : cutFirst? c t = some (a, b)) :
    t = a ++ c :: b ∧ c ∉ a := by
  induction t generalizing a with
  | nil => cases h
  | cons d r ih =>
    unfold cutFirst? at h
    split at h
    next hd =>
      cases h
      simp [hd]
    next hd =>
      obtain ⟨⟨x, y⟩, hx, hp⟩ := Option.map_eq_some_iff.1 h
      cases hp
      obtain ⟨rfl, hmem⟩ := ih hx
      exact ⟨rfl, by simp [hmem, Ne.symm hd]⟩

theorem not_mem_of_cutFirst?_eq_none {c : Char} {t : Text} (h : cutFirst? c t = none) : c ∉ t := by
  induction t with
  | nil => exact List.not_mem_nil
  | cons d r ih =>
    unfold cutFirst? at h
    split at h
    · cases h
    next hd => simp [ih (Option.map_eq_none_iff.1 h), Ne.symm hd]

theorem cutFirst?_eq_none {c : Char} {t : Text} (h : c ∉ t) : cutFirst? c t = none := by
  cases hcut : cutFirst? c t with
  | none => rfl
  | some pieces =>
    rw [(eq_append_of_cutFirst? hcut).1] at h
    simp at h

theorem cutFirst?_append {c : Char} {a : Text} (h : c ∉ a) (b : Text) :
    cutFirst? c (a ++ c :: b) = some (a, b) := by
  induction a with
  | nil => exact if_pos rfl
  | cons d a ih =>
    simp only [List.mem_cons, not_or] at h
    rw [List.cons_append, cutFirst?, if_neg (Ne.symm h.1), ih h.2]
    rfl

theorem eq_append_of_cutLast? {c : Char} {t a b : Text} (h : cutLast? c t = some (a, b)) :
    t = a ++ c :: b := by
  induction t generalizing a with
  | nil => cases h
  | cons d r ih =>
    unfold cutLast? at h
    split at h
    next x y hr =>
      cases h
      rw [ih hr]
      rfl
    next hr =>
      split at h
      next hd =>
        cases h
        rw [hd]
        rfl
      next => cases h

theorem cutLast?_eq_none {c : Char} {t : Text} (h : c ∉ t) : cutLast? c t = none := by
  induction t with
  | nil => rfl
  | cons d r ih =>
    simp only [List.mem_cons, not_or] at h
    rw [cutLast?, ih h.2]
    exact if_neg (Ne.symm h.1)

theorem cutLast?_append {c : Char} (a : Text) {b : Text} (h : c ∉ b) :
    cutLast? c (a ++ c :: b) = some (a, b) := by
  induction a with
  | nil =>
    rw [List.nil_append, cutLast?, cutLast?_eq_none h]
    exact if_pos rfl
  | cons d a ih => rw [List.cons_append, cutLast?, ih]

/-! ## Fronts and tails -/

theorem after?_eq_some_iff {lead t rest : Text} : after? lead t = some rest ↔ t = lead ++ rest := by
  unfold after?
  constructor
  · intro h
    split at h
    next hlead =>
      obtain ⟨r, rfl⟩ := List.isPrefixOf_iff_prefix.1 hlead
      cases h
      rw [List.drop_left]
    next => cases h
  · rintro rfl
    rw [if_pos (List.isPrefixOf_iff_prefix.2 (List.prefix_append lead rest)), List.drop_left]

theorem eq_append_of_before? {tail t head : Text} (h : before? tail t = some head) :
    t = head ++ tail := by
  unfold before? at h
  split at h
  · next hsuffix =>
    obtain ⟨front, rfl⟩ := List.isSuffixOf_iff_suffix.1 hsuffix
    cases h
    simp
  · cases h

theorem before?_append (t tail : Text) : before? tail (t ++ tail) = some t := by
  rw [before?, if_pos (List.isSuffixOf_iff_suffix.2 (List.suffix_append t tail)),
    List.length_append, Nat.add_sub_cancel, List.take_left]

/-! ## Pieces read one by one -/

theorem reads_of_mapM {α β : Type} {f : α → Option β} {l : List α} {r : List β}
    (h : l.mapM f = some r) : r.length = l.length ∧ ∀ a ∈ l, ∃ b, f a = some b := by
  induction l generalizing r with
  | nil =>
    cases h
    simp
  | cons a l ih =>
    simp only [List.mapM_cons, Option.bind_eq_bind, Option.bind_eq_some_iff] at h
    obtain ⟨b, hb, bs, hbs, hr⟩ := h
    cases hr
    obtain ⟨hlength, hread⟩ := ih hbs
    exact ⟨by simp [hlength], List.forall_mem_cons.2 ⟨⟨b, hb⟩, hread⟩⟩

end SplitDns.Text
