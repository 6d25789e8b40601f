import SplitDns.Proofs.Effects
import SplitDns.Proofs.LetterCase
import SplitDns.Proofs.NameText

/-!
# The loop guard

A request is refused as one that came back exactly when the loop marker stands in the text of its
name twice, in small letters (`Domain.isLooping_iff`).  Names are compared ignoring case everywhere
else, but a name that is refused in small letters has a spelling that is not refused
(`Resolver.guard_spellings`).
-/

namespace SplitDns

/-! ## Markers in texts -/

theorem Text.occurrences_pos_iff {pattern t : Text} (h : pattern ≠ []) :
    0 < occurrences pattern t ↔ pattern <:+: t := by
  induction t with
  | nil => simp [occurrences, h]
  | cons c t ih =>
    rw [occurrences, List.infix_cons_iff, ← List.isPrefixOf_iff_prefix, ← ih]
    split
    next hp => exact iff_of_true (by omega) (.inl hp)
    next hp => simp [hp]

namespace Domain

variable {t : Text}

theorem markers_cons (c : Char) (t : Text) :
    markers (c :: t) = (if loopMarker <+: c :: t then 1 else 0) + markers t := by
  rw [markers, Text.occurrences]
  simp only [List.isPrefixOf_iff_prefix]
  rfl

/-- No marker starts within another one. -/
theorem markers_append (t : Text) : markers (loopMarker ++ t) = 1 + markers t := by
  simp [markers, loopMarker, Text.occurrences]

theorem isLooping_iff : isLooping t = true ↔
    ∃ a b c, t = a ++ loopMarker ++ b ++ loopMarker ++ c := by
  rw [isLooping, decide_eq_true_iff]
  induction t with
  | nil => simp [markers, loopMarker, Text.occurrences]
  | cons d t ih =>
    rw [markers_cons]
    split
    next h =>
      obtain ⟨u, hu⟩ := h
      have hmarkers : markers t = markers u := by
        have hcons := markers_cons d t
        rw [← hu, markers_append, if_pos (List.prefix_append _ _)] at hcons
        omega
      -- A marker that comes first leaves the second one to what follows it.
      constructor
      · intro hlt
        obtain ⟨b, c, hbc⟩ : loopMarker <:+: u :=
          (Text.occurrences_pos_iff (by decide)).1 (show 0 < markers u by omega)
        exact ⟨[], b, c, by rw [← hu, ← hbc]; simp⟩
      · rintro ⟨a, b, c, habc⟩
        have hpos : 0 < markers t := by
          cases a with
          | nil =>
            rw [hmarkers]
            refine (Text.occurrences_pos_iff (by decide)).2 ⟨b, c, ?_⟩
            rw [habc] at hu
            simpa using hu.symm
          | cons x a =>
            cases habc
            have hlt := ih.2 ⟨a, b, c, rfl⟩
            omega
        omega
    next h =>
      rw [Nat.zero_add, ih]
      constructor
      · rintro ⟨a, b, c, rfl⟩
        exact ⟨d :: a, b, c, rfl⟩
      · rintro ⟨a, b, c, habc⟩
        cases a with
        | nil => exact absurd ⟨b ++ loopMarker ++ c, by simp [habc]⟩ h
        | cons x a =>
          cases habc
          exact ⟨a, b, c, rfl⟩

/-- A marker is one in small letters as well. -/
theorem markers_le_lower (t : Text) : markers t ≤ markers (Text.lower t) := by
  induction t with
  | nil => exact Nat.le_refl _
  | cons c t ih =>
    have hlower : Text.lower (c :: t) = c.toLower :: Text.lower t := rfl
    have hmarker : loopMarker <+: c :: t → loopMarker <+: c.toLower :: Text.lower t := fun h =>
      h.map Char.toLower
    rw [hlower, markers_cons, markers_cons]
    split
    next h => rw [if_pos (hmarker h)]; omega
    next h => omega

theorem isLooping_lower (h : isLooping t = true) : isLooping (Text.lower t) = true := by
  rw [isLooping, decide_eq_true_iff] at h ⊢
  exact Nat.lt_of_lt_of_le h (markers_le_lower t)

/-- There is an `n` in each marker. -/
theorem isLooping_eq_false (h : 'n' ∉ t) : isLooping t = false := by
  have hnone : ¬ 0 < markers t := fun hpos =>
    h (((Text.occurrences_pos_iff (by decide)).1 hpos).subset (by decide))
  rw [isLooping, decide_eq_false_iff_not]
  omega

end Domain

/-! ## Capital letters -/

namespace Name

/-- An ASCII letter as a capital one. -/
def upperOctet (b : UInt8) : UInt8 :=
  if 97 ≤ b ∧ b ≤ 122 then b - 32 else b

def upper (n : Name) : Name :=
  ⟨n.labels.map (·.map upperOctet), (fits_map_iff upperOctet).2 n.fits⟩

theorem lower_upper (n : Name) : n.upper.lower = n.lower := by
  have hoctet : ∀ b, lowerOctet (upperOctet b) = lowerOctet b :=
    forall_octet (by decide +kernel)
  have hlabel : ∀ l : Label, (l.map upperOctet).map lowerOctet = l.map lowerOctet := fun l => by
    rw [List.map_map]
    exact List.map_congr_left fun b _ => hoctet b
  simp only [lower, upper, List.map_map]
  congr 1
  exact List.map_congr_left fun l _ => hlabel l

theorem lower_lower (n : Name) : n.lower.lower = n.lower :=
  lower_text_eq_iff.1 (by rw [← lower_text, Text.lower_lower])

theorem not_mem_text_upper (n : Name) : 'n' ∉ n.upper.text := by
  have hoctet : ∀ b atStart, 'n' ∉ octetText atStart (upperOctet b) :=
    forall_octet (by decide +kernel)
  intro hmem
  refine forall_mem_text (P := (· ≠ 'n')) (by decide) (fun l hl b hb atStart c hc => ?_) 'n' hmem
    rfl
  obtain ⟨k, -, rfl⟩ := List.mem_map.1 hl
  obtain ⟨b, -, rfl⟩ := List.mem_map.1 hb
  exact ne_of_mem_of_not_mem hc (hoctet b atStart)

end Name

namespace Resolver

variable {σ : Type}

/-! ## Requests that came back -/

/-- Whether a request ends as one that came back. -/
def ComesBack (r : Resolver σ) (env : Surroundings σ) (id : UInt16) (w : World σ)
    (request : Message) : Prop :=
  ∃ text, (r.execute env id request w).1 = .error (.recursiveQuery text)

theorem comesBack_iff {r : Resolver σ} {env : Surroundings σ} {id : UInt16} {w : World σ}
    {request : Message} {q : Question} (hq : request.questions.head? = some q) :
    r.ComesBack env id w request ↔ Domain.isLooping q.name.text = true := by
  constructor
  · rintro ⟨text, hresult⟩
    obtain ⟨es, -, hended⟩ := execute_ended r env id request w
    rw [hresult] at hended
    cases hended with
    | refused h =>
      generalize he : Failure.recursiveQuery text = e at h
      cases h with
      | empty h => cases he
      | looping hq' h =>
        rw [hq] at hq'
        cases hq'
        exact h
      | record hq' h => cases he
  · intro h
    refine ⟨String.ofList q.name.text, ?_⟩
    rw [execute, run_of_refuses (.looping hq h)]
    rfl

/-- A request is refused as one that came back when the loop marker stands in the text of its name
twice, in small letters.  All spellings of a name fare alike only if none of them is refused. -/
theorem guard_spellings (r : Resolver σ) (env : Surroundings σ) (id : UInt16) (w : World σ)
    (request : Message) (q : Question) (qs : List Question) (n : Name) :
    let asked (n : Name) : Message := { request with questions := { q with name := n } :: qs }
    (r.ComesBack env id w (asked n) ↔
      ∃ a b c, n.text = a ++ Domain.loopMarker ++ b ++ Domain.loopMarker ++ c) ∧
    (r.ComesBack env id w (asked n) → r.ComesBack env id w (asked n.lower)) ∧
    ((∀ m : Name, m.lower = n.lower →
        (r.ComesBack env id w (asked m) ↔ r.ComesBack env id w (asked n))) ↔
      ¬ r.ComesBack env id w (asked n.lower)) := by
  intro asked
  have hguard : ∀ n, r.ComesBack env id w (asked n) ↔ Domain.isLooping n.text = true := fun n =>
    @comesBack_iff _ _ _ _ _ (asked n) { q with name := n } rfl
  have hlower : ∀ n : Name, Domain.isLooping n.text = true →
      Domain.isLooping n.lower.text = true := by
    intro n h
    rw [← Name.lower_text]
    exact Domain.isLooping_lower h
  simp only [hguard]
  refine ⟨Domain.isLooping_iff, hlower n, fun hall hlooping => ?_, fun hnone m hm => ?_⟩
  · have hn := (hall n.lower n.lower_lower).1 hlooping
    have hupper := (hall n.upper n.lower_upper).2 hn
    rw [Domain.isLooping_eq_false n.not_mem_text_upper] at hupper
    cases hupper
  · exact iff_of_false (fun h => hnone (hm ▸ hlower m h)) fun h => hnone (hlower n h)

/-- `a.ne-1.b.ne-2.` is refused, and `a.NE-1.b.ne-2.` is sent to a server. -/
theorem guard_tells_spellings_apart :
    ¬ ∀ n m : Name, n.lower = m.lower →
      let asked (n : Name) : Message :=
        { Message.bare (Header.blank 1 false 0) with questions := [⟨n, 1, 1⟩] }
      let env : Surroundings Unit := .answering (Message.bare (Header.blank 0 true 0))
      (oneServer.ComesBack env 1 (.fresh .standard) (asked n) ↔
        oneServer.ComesBack env 1 (.fresh .standard) (asked m)) := by
  intro h
  let small : Name := ⟨[[97], [110, 101, 45, 49], [98], [110, 101, 45, 50]], by decide⟩
  let mixed : Name := ⟨[[97], [78, 69, 45, 49], [98], [110, 101, 45, 50]], by decide⟩
  have hsmall := h small mixed (by decide)
  obtain ⟨text, htext⟩ := hsmall.1 ⟨_, rfl⟩
  cases htext

end Resolver

end SplitDns
