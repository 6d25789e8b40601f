import SplitDns.Proofs.LabelBoundary
import SplitDns.Proofs.NameSpelling

/-!
# Names read from their text

A name whose labels consist of letters, digits, underscores and hyphens that do not come first is
read back from its text in the same labels up to letter case (`Name.parse?_text`).  What has to be
assumed of labels that start with `xn--` is that the reader of international labels keeps them; all
others it keeps (`Name.keeps_of_not_isAce`).
-/

namespace SplitDns

namespace Name

/-! ## Labels -/

/-- Letters, digits and underscores. -/
def isWordOctet (b : UInt8) : Bool :=
  (97 ≤ b && b ≤ 122) || (65 ≤ b && b ≤ 90) || (48 ≤ b && b ≤ 57) || b == 95

/-- Labels of letters, digits, underscores and hyphens that do not come first. -/
def isHostLabel : Label → Bool
  | [] => true
  | b :: r => isWordOctet b && r.all fun c => isWordOctet c || c == 45

/-- Labels that announce an encoded international label. -/
def isAce (l : Label) : Bool :=
  Idna.aceLead.isPrefixOf (Text.lower (plain l))

/-- Whether a label is read from its text as itself, up to letter case. -/
def Keeps (l : Label) : Prop :=
  (label? (labelText l)).map (·.map lowerOctet) = some (l.map lowerOctet)

theorem isWordOctet_of_mem {l : Label} (h : isHostLabel l = true) :
    ∀ b ∈ l, isWordOctet b = true ∨ b = 45 := by
  cases l with
  | nil => simp
  | cons b r =>
    simp only [isHostLabel, Bool.and_eq_true, List.all_eq_true, Bool.or_eq_true, beq_iff_eq] at h
    intro c hc
    rcases List.mem_cons.1 hc with rfl | hc
    · exact .inl h.1
    · exact h.2 c hc

theorem lt_of_mem_hostLabel {l : Label} (h : isHostLabel l = true) : ∀ b ∈ l, b.toNat < 128 := by
  have hoctet : ∀ b : UInt8, isWordOctet b = true ∨ b = 45 → b.toNat < 128 :=
    forall_octet (by decide +kernel)
  exact fun b hb => hoctet b (isWordOctet_of_mem h b hb)

/-- No character of such a label means anything but itself in text. -/
theorem free_of_mem_plain {l : Label} (h : isHostLabel l = true) :
    ∀ c ∈ plain l, c ≠ '.' ∧ c ≠ '\\' ∧ isRefused c = false := by
  have hoctet : ∀ b, isWordOctet b = true ∨ b = 45 → Char.ofNat b.toNat ≠ '.' ∧
      Char.ofNat b.toNat ≠ '\\' ∧ isRefused (Char.ofNat b.toNat) = false :=
    forall_octet (by decide +kernel)
  intro c hc
  obtain ⟨b, hb, rfl⟩ := List.mem_map.1 hc
  exact hoctet b (isWordOctet_of_mem h b hb)

/-- Nothing in such a label has to be marked in text. -/
theorem labelText_of_isHostLabel {l : Label} (h : isHostLabel l = true) :
    labelText l = plain l := by
  have hfirst : ∀ b, isWordOctet b = true → octetText true b = [Char.ofNat b.toNat] :=
    forall_octet (by decide +kernel)
  have hlater : ∀ b, isWordOctet b = true ∨ b = 45 → octetText false b = [Char.ofNat b.toNat] :=
    forall_octet (by decide +kernel)
  cases l with
  | nil => rfl
  | cons b r =>
    simp only [isHostLabel, Bool.and_eq_true, List.all_eq_true, Bool.or_eq_true, beq_iff_eq] at h
    have hrest : r.flatMap (octetText false) = plain r := by
      rw [plain, ← List.flatMap_singleton' (r.map _), List.flatMap_map]
      exact List.flatMap_congr fun c hc => hlater c (h.2 c hc)
    rw [labelText, hfirst b h.1, hrest]
    rfl

theorem encode_plain {l : Label} (h : ∀ b ∈ l, b.toNat < 128) : Utf8.encode (plain l) = l := by
  have hascii : ∀ n < 128, String.utf8EncodeChar (Char.ofNat n) = [UInt8.ofNat n] := by
    decide +kernel
  induction l with
  | nil => rfl
  | cons b l ih =>
    obtain ⟨hb, hl⟩ := List.forall_mem_cons.1 h
    have hhead := hascii b.toNat hb
    have htail := ih hl
    rw [UInt8.ofNat_toNat] at hhead
    unfold Utf8.encode at htail ⊢
    rw [plain, List.map_cons, List.flatMap_cons, hhead]
    exact congrArg (b :: ·) htail

theorem lt_of_mem_plain {l : Label} (h : ∀ b ∈ l, b.toNat < 128) :
    ∀ c ∈ plain l, c.toNat < 128 := by
  have hascii : ∀ n < 128, (Char.ofNat n).toNat < 128 := by decide
  intro c hc
  obtain ⟨b, hb, rfl⟩ := List.mem_map.1 hc
  exact hascii b.toNat (h b hb)

/-- An ASCII accent joins no letter. -/
theorem joinAccents_eq_self {t : Text} (h : ∀ c ∈ t, c.toNat < 128) : Idna.joinAccents t = t := by
  have hnone : ∀ n < 128, Idna.accents.lookup n = none := by decide
  induction t with
  | nil => rfl
  | cons c t ih =>
    rw [Idna.joinAccents, ih fun d hd => h d (List.mem_cons_of_mem _ hd)]
    cases t with
    | nil => rfl
    | cons d t =>
      have hjoin : Idna.joined? c d = none := by
        rw [Idna.joined?, hnone d.toNat (h d (by simp))]
        rfl
      simp only [hjoin]

theorem lt_of_mem_lower {t : Text} (h : ∀ c ∈ t, c.toNat < 128) :
    ∀ c ∈ Text.lower t, c.toNat < 128 := by
  have hlower : ∀ n < 128, (Char.ofNat n).toLower.toNat < 128 := by decide
  intro c hc
  obtain ⟨b, hb, rfl⟩ := List.mem_map.1 hc
  have hb := hlower b.toNat (h b hb)
  rwa [Char.ofNat_toNat] at hb

/-- ASCII letters become small and all else stays. -/
theorem normal_of_ascii {t : Text} (h : ∀ c ∈ t, c.toNat < 128) : Idna.normal t = Text.lower t := by
  have hmapped : ∀ n < 128, Idna.mapped (Char.ofNat n) = [(Char.ofNat n).toLower] := by
    decide +kernel
  have hflat : t.flatMap Idna.mapped = Text.lower t := by
    rw [Text.lower, ← List.flatMap_singleton' (t.map _), List.flatMap_map]
    refine List.flatMap_congr fun c hc => ?_
    have hc := hmapped c.toNat (h c hc)
    rwa [Char.ofNat_toNat] at hc
  rw [Idna.normal, hflat, joinAccents_eq_self (lt_of_mem_lower h)]

/-- An ASCII label without dots that is not encoded is its own ASCII form, in small letters. -/
theorem ascii?_of_ascii {t : Text} (h : ∀ c ∈ t, c.toNat < 128) (hdot : '.' ∉ t)
    (hace : Idna.aceLead.isPrefixOf (Text.lower t) = false) :
    Idna.ascii? t = some (Text.lower t) := by
  have hsplit : Text.split (· == '.') (Text.lower t) = [Text.lower t] := by
    refine Text.split_eq_singleton fun c hc => ?_
    obtain ⟨b, hb, rfl⟩ := List.mem_map.1 hc
    rw [Text.toLower_beq_dot]
    exact beq_false_of_ne (ne_of_mem_of_not_mem hb hdot)
  have hall : (Text.lower t).all Punycode.isAscii = true :=
    List.all_eq_true.2 fun c hc => decide_eq_true (lt_of_mem_lower h c hc)
  have hlabel : Idna.labelAscii? (Text.lower t) = some (Text.lower t) := by
    rw [Idna.labelAscii?, if_pos hall, Text.after?, hace]
    rfl
  rw [Idna.ascii?, normal_of_ascii h, hsplit]
  simp [hlabel, Text.join]

theorem asciiLabel?_plain {l : Label} (hne : l ≠ []) (h : isHostLabel l = true) :
    asciiLabel? (plain l) = some l := by
  have hfirst : ∀ b, isWordOctet b = true → isLabelChar true (Char.ofNat b.toNat) = true :=
    forall_octet (by decide +kernel)
  have hlater : ∀ b, isWordOctet b = true ∨ b = 45 →
      isLabelChar false (Char.ofNat b.toNat) = true :=
    forall_octet (by decide +kernel)
  have hencode := encode_plain (lt_of_mem_hostLabel h)
  obtain ⟨b, r, rfl⟩ := List.exists_cons_of_ne_nil hne
  simp only [isHostLabel, Bool.and_eq_true, List.all_eq_true, Bool.or_eq_true, beq_iff_eq] at h
  have hrest : (plain r).all (isLabelChar false) = true := by
    rw [plain, List.all_map, List.all_eq_true]
    exact fun c hc => hlater c (h.2 c hc)
  have hplain : plain (b :: r) = Char.ofNat b.toNat :: plain r := rfl
  rw [hplain] at hencode ⊢
  rw [asciiLabel?, hfirst b h.1, hrest, hencode]
  rfl

/-- Labels that are not encoded ones are read as themselves, up to letter case. -/
theorem keeps_of_not_isAce {l : Label} (hne : l ≠ []) (h : isHostLabel l = true)
    (hace : isAce l = false) : Keeps l := by
  have hascii := lt_of_mem_plain (lt_of_mem_hostLabel h)
  rw [Keeps, labelText_of_isHostLabel h, label?]
  split
  · rw [asciiLabel?_plain hne h]
    rfl
  · have hdot : '.' ∉ plain l := fun hmem => (free_of_mem_plain h '.' hmem).1 rfl
    rw [ascii?_of_ascii hascii hdot hace, Option.bind_some, asciiLabel?_lower,
      asciiLabel?_plain hne h, Option.map_some, Option.map_some, List.map_map]
    exact congrArg some (List.map_congr_left fun b _ => lowerOctet_lowerOctet b)

/-! ## Names -/

theorem cutLabels_append {s : Text} (h : ∀ c ∈ s, c ≠ '.' ∧ c ≠ '\\' ∧ isRefused c = false)
    (label rest : Text) :
    cutLabels .plain label (s ++ rest) = cutLabels .plain (label ++ s) rest := by
  induction s generalizing label with
  | nil => simp
  | cons c s ih =>
    obtain ⟨⟨hdot, hmark, hrefused⟩, hs⟩ := List.forall_mem_cons.1 h
    rw [List.cons_append, cutLabels]
    simp only [hdot, hmark, hrefused, if_false]
    rw [ih hs]
    simp

/-- The labels of a text are cut at its dots. -/
theorem cutLabels_dotted {ls : List Label} (h : ∀ l ∈ ls, isHostLabel l = true) :
    cutLabels .plain [] (dotted ls) = some (ls.map labelText) := by
  induction ls with
  | nil => rfl
  | cons l ls ih =>
    obtain ⟨hl, hls⟩ := List.forall_mem_cons.1 h
    rw [dotted_cons, labelText_of_isHostLabel hl, cutLabels_append (free_of_mem_plain hl),
      List.nil_append, cutLabels]
    simp [ih hls, labelText_of_isHostLabel hl]

theorem mapM_label? {ls : List Label} (h : ∀ l ∈ ls, Keeps l) :
    ∃ ks, (ls.map labelText).mapM label? = some ks ∧
      ks.map (·.map lowerOctet) = ls.map (·.map lowerOctet) := by
  induction ls with
  | nil => exact ⟨[], rfl, rfl⟩
  | cons l ls ih =>
    obtain ⟨hl, hls⟩ := List.forall_mem_cons.1 h
    obtain ⟨k, hk, hlower⟩ := Option.map_eq_some_iff.1 hl
    obtain ⟨ks, hks, hlowers⟩ := ih hls
    refine ⟨k :: ks, ?_, by simp [hlower, hlowers]⟩
    rw [List.map_cons, List.mapM_cons, hk, hks]
    rfl

/-- A name is read from its text with the labels that it has, up to letter case. -/
theorem parse?_text {n : Name} (h : ∀ l ∈ n.labels, isHostLabel l = true)
    (hkeeps : ∀ l ∈ n.labels, Keeps l) : ∃ m, parse? n.text = some m ∧ m.lower = n.lower := by
  by_cases hroot : n.labels = []
  · refine ⟨root, ?_, ?_⟩
    · rw [text_of_nil hroot]
      rfl
    · simp [lower, hroot, root]
  · obtain ⟨ks, hks, hlower⟩ := mapM_label? hkeeps
    have hfits : Fits ks := by
      rw [← fits_map_iff lowerOctet, hlower, fits_map_iff]
      exact n.fits
    refine ⟨⟨ks, hfits⟩, ?_, by simp only [lower, hlower]⟩
    have hcut := cutLabels_dotted h
    rw [parse?, if_neg (text_ne_dot hroot), text_of_ne_nil hroot]
    change (cutLabels .plain [] (dotted n.labels)).bind _ = _
    rw [hcut, Option.bind_some, hks]
    exact dif_pos hfits

end Name

end SplitDns
