import SplitDns.Name.Basic

/-!
# Names in text

The text of a name determines its labels, and the small letters of the text are the text of the
name in small letters.  So texts that are equal ignoring ASCII case belong to names that are equal
ignoring ASCII case (`lower_text_eq_iff`).
-/

namespace SplitDns

/-- What holds of the numbers below 256, taken as octets, holds of all octets. -/
theorem forall_octet {P : UInt8 → Prop} (h : ∀ n < 256, P (UInt8.ofNat n)) (b : UInt8) : P b := by
  have hb := h b.toNat b.toNat_lt
  rwa [UInt8.ofNat_toNat] at hb

namespace Name

/-! ## Octets in text -/

def digitValue (c : Char) : Nat :=
  c.toNat - 48

/-- The octet that a text starts with, and the text after it. -/
def takeOctet? : Text → Option (UInt8 × Text)
  | [] => none
  | c :: r =>
    if c = '\\' then
      match r with
      | [] => none
      | d :: t =>
        if d.isDigit then
          match t with
          | e :: f :: u =>
            some (UInt8.ofNat (64 * digitValue d + 8 * digitValue e + digitValue f), u)
          | _ => none
        else some (UInt8.ofNat d.toNat, t)
    else some (UInt8.ofNat c.toNat, r)

theorem takeOctet?_append {s t : Text} {b : UInt8} (h : takeOctet? s = some (b, [])) :
    takeOctet? (s ++ t) = some (b, t) := by
  fun_cases takeOctet? s <;> simp_all [takeOctet?]

theorem takeOctet?_octetText (atStart : Bool) (b : UInt8) (t : Text) :
    takeOctet? (octetText atStart b ++ t) = some (b, t) := by
  apply takeOctet?_append
  revert b atStart
  have h : ∀ n < 256, ∀ s, takeOctet? (octetText s (UInt8.ofNat n)) = some (UInt8.ofNat n, []) := by
    decide +kernel
  intro s
  exact forall_octet fun n hn => h n hn s

theorem octetText_inj {atStart : Bool} {b c : UInt8} {s t : Text}
    (h : octetText atStart b ++ s = octetText atStart c ++ t) : b = c ∧ s = t := by
  have hb := takeOctet?_octetText atStart b s
  rw [h, takeOctet?_octetText, Option.some.injEq, Prod.mk.injEq] at hb
  exact ⟨hb.1.symm, hb.2.symm⟩

/-- The text of an octet does not start with a dot. -/
theorem octetText_ne_dot (atStart : Bool) (b : UInt8) (s t : Text) :
    octetText atStart b ++ s ≠ '.' :: t := by
  have h : ∀ n < 256, ∀ a, (octetText a (UInt8.ofNat n)).head? ≠ some '.' ∧
      octetText a (UInt8.ofNat n) ≠ [] := by
    decide +kernel
  have hb : (octetText atStart b).head? ≠ some '.' ∧ octetText atStart b ≠ [] := by
    revert b
    exact forall_octet fun n hn => h n hn atStart
  intro e
  cases ho : octetText atStart b with
  | nil => exact hb.2 ho
  | cons c r =>
    rw [ho] at e hb
    cases e
    exact hb.1 rfl

theorem lower_octetText (atStart : Bool) (b : UInt8) :
    Text.lower (octetText atStart b) = octetText atStart (lowerOctet b) := by
  have h : ∀ n < 256, ∀ a, Text.lower (octetText a (UInt8.ofNat n)) =
      octetText a (lowerOctet (UInt8.ofNat n)) := by
    decide +kernel
  revert b
  exact forall_octet fun n hn => h n hn atStart

/-! ## Labels in text -/

theorem flatMap_octetText_inj {s t : Text} : ∀ {l k : Label},
    l.flatMap (octetText false) ++ '.' :: s = k.flatMap (octetText false) ++ '.' :: t →
      l = k ∧ s = t
  | [], [], h => by simpa using h
  | [], c :: k, h => by
      rw [List.flatMap_cons, List.append_assoc] at h
      exact absurd h.symm (octetText_ne_dot _ _ _ _)
  | b :: l, [], h => by
      rw [List.flatMap_cons, List.append_assoc] at h
      exact absurd h (octetText_ne_dot _ _ _ _)
  | b :: l, c :: k, h => by
      rw [List.flatMap_cons, List.flatMap_cons, List.append_assoc, List.append_assoc] at h
      obtain ⟨rfl, h'⟩ := octetText_inj h
      obtain ⟨rfl, rfl⟩ := flatMap_octetText_inj h'
      exact ⟨rfl, rfl⟩

theorem labelText_inj {s t : Text} : ∀ {l k : Label},
    labelText l ++ '.' :: s = labelText k ++ '.' :: t → l = k ∧ s = t
  | [], [], h => by simpa [labelText] using h
  | [], c :: k, h => by
      rw [labelText, labelText, List.append_assoc] at h
      exact absurd h.symm (octetText_ne_dot _ _ _ _)
  | b :: l, [], h => by
      rw [labelText, labelText, List.append_assoc] at h
      exact absurd h (octetText_ne_dot _ _ _ _)
  | b :: l, c :: k, h => by
      rw [labelText, labelText, List.append_assoc, List.append_assoc] at h
      obtain ⟨rfl, h'⟩ := octetText_inj h
      obtain ⟨rfl, rfl⟩ := flatMap_octetText_inj h'
      exact ⟨rfl, rfl⟩

theorem flatMap_labelText_inj : ∀ {ls ks : List Label},
    ls.flatMap (fun l => labelText l ++ ['.']) = ks.flatMap (fun l => labelText l ++ ['.']) →
      ls = ks
  | [], [], _ => rfl
  | [], k :: ks, h => by simp at h
  | l :: ls, [], h => by simp at h
  | l :: ls, k :: ks, h => by
      rw [List.flatMap_cons, List.flatMap_cons, List.append_assoc, List.append_assoc] at h
      obtain ⟨rfl, h'⟩ := labelText_inj h
      rw [flatMap_labelText_inj h']

theorem lower_labelText (l : Label) :
    Text.lower (labelText l) = labelText (l.map lowerOctet) := by
  have h : ∀ r : Label, Text.lower (r.flatMap (octetText false)) =
      (r.map lowerOctet).flatMap (octetText false) := by
    intro r
    induction r with
    | nil => rfl
    | cons b r ih =>
      rw [List.flatMap_cons, List.map_cons, List.flatMap_cons, ← ih, ← lower_octetText]
      exact List.map_append
  cases l with
  | nil => rfl
  | cons b r =>
    rw [labelText, List.map_cons, labelText, ← h, ← lower_octetText]
    exact List.map_append

/-! ## Names -/

theorem text_of_nil {n : Name} (h : n.labels = []) : n.text = ['.'] := by
  unfold text
  rw [h]
  rfl

theorem text_of_ne_nil {n : Name} (h : n.labels ≠ []) :
    n.text = n.labels.flatMap fun l => labelText l ++ ['.'] :=
  if_neg (by simpa using h)

/-- A dot is the text of the root only. -/
theorem text_ne_dot {n : Name} (h : n.labels ≠ []) : n.text ≠ ['.'] := by
  obtain ⟨l, ls, hl⟩ := List.exists_cons_of_ne_nil h
  intro e
  rw [text_of_ne_nil h, hl, List.flatMap_cons, List.append_assoc] at e
  obtain ⟨hnil, -⟩ := @labelText_inj _ [] l [] e
  exact (n.fits.1 l (by simp [hl])).1 hnil

theorem text_inj {n m : Name} (h : n.text = m.text) : n = m := by
  have hlabels : n.labels = m.labels := by
    by_cases hn : n.labels = []
    · by_cases hm : m.labels = []
      · rw [hn, hm]
      · exact absurd (h ▸ text_of_nil hn) (text_ne_dot hm)
    · by_cases hm : m.labels = []
      · exact absurd (h ▸ text_of_nil hm) (text_ne_dot hn)
      · rw [text_of_ne_nil hn, text_of_ne_nil hm] at h
        exact flatMap_labelText_inj h
  cases n
  cases m
  cases hlabels
  rfl

theorem lower_text (n : Name) : Text.lower n.text = n.lower.text := by
  have h : ∀ ls : List Label, Text.lower (ls.flatMap fun l => labelText l ++ ['.']) =
      (ls.map (·.map lowerOctet)).flatMap fun l => labelText l ++ ['.'] := by
    intro ls
    induction ls with
    | nil => rfl
    | cons l ls ih =>
      rw [List.flatMap_cons, List.map_cons, List.flatMap_cons, ← ih, ← lower_labelText]
      simp only [Text.lower, List.map_append]
      rfl
  have hl : n.lower.labels = n.labels.map (·.map lowerOctet) := rfl
  by_cases hn : n.labels = []
  · rw [text_of_nil hn, text_of_nil (by rw [hl, hn]; rfl)]
    rfl
  · rw [text_of_ne_nil hn, text_of_ne_nil (by simpa [hl] using hn), h, hl]

/-- The texts of two names are equal ignoring ASCII case exactly when the names are. -/
theorem lower_text_eq_iff {n m : Name} :
    Text.lower n.text = Text.lower m.text ↔ n.lower = m.lower := by
  rw [lower_text, lower_text]
  exact ⟨text_inj, fun h => by rw [h]⟩

/-! ## Octets one by one -/

/-- What holds of dots and of the texts of octets holds of the text of a name. -/
theorem forall_mem_text {P : Char → Prop} {n : Name} (hdot : P '.')
    (h : ∀ l ∈ n.labels, ∀ b ∈ l, ∀ atStart, ∀ c ∈ octetText atStart b, P c) :
    ∀ c ∈ n.text, P c := by
  have hlabel : ∀ l ∈ n.labels, ∀ c ∈ labelText l, P c := by
    intro l hl c hc
    cases l with
    | nil => cases hc
    | cons b l =>
      rcases List.mem_append.1 hc with hc | hc
      · exact h _ hl b (List.mem_cons_self ..) true c hc
      · obtain ⟨d, hd, hc⟩ := List.mem_flatMap.1 hc
        exact h _ hl d (List.mem_cons_of_mem _ hd) false c hc
  intro c hc
  by_cases hn : n.labels = []
  · rw [text_of_nil hn, List.mem_singleton] at hc
    exact hc ▸ hdot
  · rw [text_of_ne_nil hn] at hc
    obtain ⟨l, hl, hc⟩ := List.mem_flatMap.1 hc
    rcases List.mem_append.1 hc with hc | hc
    · exact hlabel l hl c hc
    · exact List.mem_singleton.1 hc ▸ hdot

/-- Names keep their lengths when each octet gives way to another one. -/
theorem fits_map_iff {ls : List Label} (f : UInt8 → UInt8) :
    Fits (ls.map (·.map f)) ↔ Fits ls := by
  have hlength : wireLength (ls.map (·.map f)) = wireLength ls := by
    induction ls with
    | nil => rfl
    | cons l ls ih => simp [wireLength, ih]
  unfold Fits
  rw [hlength, List.forall_mem_map]
  simp only [ne_eq, List.map_eq_nil_iff, List.length_map]

end Name

end SplitDns
