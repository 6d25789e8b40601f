import SplitDns.Proofs.LongestSuffix
import SplitDns.Proofs.NameText

/-!
# Rules and labels

A rule list looks names up in text, where a dot octet inside a label stands behind a backslash and
the dots between labels do not.  The search cuts names at both kinds of dots.  So a rule for a
domain takes effect on the names whose labels end in those of the domain, and on names that have a
label with a dot octet behind which the rest of the labels are those of the domain
(`RuleList.verdict_at_label_or_dot`).  Names of the second kind need not stand below the domain.
-/

namespace SplitDns

/-! ## Labels of domains -/

namespace Domain

/-- What letters, digits, hyphens and dots are. -/
def isHostChar (c : Char) : Bool :=
  c.isAlphanum || c == '-' || c == '.'

/-- The labels of a domain in text are what stands between its dots. -/
def labelsOf (d : Text) : List Label :=
  (Text.split (· == '.') d).map fun piece => piece.map fun c => UInt8.ofNat c.toNat

theorem ne_backslash_of_isHostChar {c : Char} (h : isHostChar c = true) : c ≠ '\\' := by
  rintro rfl
  revert h
  decide

end Domain

/-! ## Dots in the text of a name -/

namespace Name

/-- Labels in text, each closed by a dot. -/
def dotted (ls : List Label) : Text :=
  ls.flatMap fun l => labelText l ++ ['.']

theorem dotted_cons (l : Label) (ls : List Label) :
    dotted (l :: ls) = labelText l ++ '.' :: dotted ls := by
  simp [dotted]

theorem octetText_dot : ∀ atStart b, '.' ∈ octetText atStart b →
    b = 46 ∧ octetText atStart b = ['\\', '.'] := by
  have h : ∀ n < 256, ∀ a, '.' ∈ octetText a (UInt8.ofNat n) →
      UInt8.ofNat n = 46 ∧ octetText a (UInt8.ofNat n) = ['\\', '.'] := by
    decide +kernel
  intro atStart
  exact forall_octet fun n hn => h n hn atStart

/-- A dot behind the text of an octet is the end of that text or stands in what follows it. -/
theorem octetText_append_eq {atStart : Bool} {b : UInt8} {w u v : Text}
    (h : octetText atStart b ++ w = u ++ '.' :: v) :
    (b = 46 ∧ v = w) ∨ ∃ u', w = u' ++ '.' :: v := by
  rcases List.append_eq_append_iff.1 h with ⟨t, -, ht⟩ | ⟨t, hu, ht⟩
  · exact .inr ⟨t, ht⟩
  · cases t with
    | nil => exact .inr ⟨[], ht.symm⟩
    | cons c t =>
      cases ht
      obtain ⟨hb, htext⟩ := octetText_dot atStart b (by simp [hu])
      refine .inl ⟨hb, ?_⟩
      rw [htext] at hu
      cases u with
      | nil => cases hu
      | cons d u =>
        cases u with
        | nil =>
          cases hu
          rfl
        | cons e u => simp at hu

theorem flatMap_octetText_eq {u v : Text} : ∀ {l : Label},
    l.flatMap (octetText false) = u ++ '.' :: v →
      ∃ x y, l = x ++ 46 :: y ∧ v = y.flatMap (octetText false)
  | [], h => by simp at h
  | b :: l, h => by
      rw [List.flatMap_cons] at h
      rcases octetText_append_eq h with ⟨rfl, rfl⟩ | ⟨u', h'⟩
      · exact ⟨[], l, rfl, rfl⟩
      · obtain ⟨x, y, rfl, rfl⟩ := flatMap_octetText_eq h'
        exact ⟨b :: x, y, rfl, rfl⟩

/-- A dot in the text of a label stands for a dot octet. -/
theorem labelText_eq {u v : Text} {l : Label} (h : labelText l = u ++ '.' :: v) :
    ∃ x y, l = x ++ 46 :: y ∧ v = y.flatMap (octetText false) := by
  cases l with
  | nil => simp [labelText] at h
  | cons b l =>
    rcases octetText_append_eq h with ⟨rfl, rfl⟩ | ⟨u', h'⟩
    · exact ⟨[], l, rfl, rfl⟩
    · obtain ⟨x, y, rfl, rfl⟩ := flatMap_octetText_eq h'
      exact ⟨b :: x, y, rfl, rfl⟩

/-- A dot in the text of labels closes one of them or stands for a dot octet in one of them. -/
theorem dotted_eq {u s : Text} : ∀ {ls : List Label}, dotted ls = u ++ '.' :: s →
    (∃ post, post <:+ ls ∧ s = dotted post) ∨
      ∃ pre x y post, ls = pre ++ (x ++ 46 :: y) :: post ∧
        s = y.flatMap (octetText false) ++ '.' :: dotted post
  | [], h => by simp [dotted] at h
  | l :: ls, h => by
      rw [dotted_cons] at h
      rcases List.append_eq_append_iff.1 h with ⟨v, -, hv⟩ | ⟨v, hl, hv⟩
      · cases v with
        | nil => exact .inl ⟨ls, List.suffix_cons l ls, (List.cons.inj hv).2.symm⟩
        | cons c v =>
          rcases dotted_eq (List.cons.inj hv).2 with
            ⟨post, hpost, rfl⟩ | ⟨pre, x, y, post, rfl, rfl⟩
          · exact .inl ⟨post, hpost.trans (List.suffix_cons l ls), rfl⟩
          · exact .inr ⟨l :: pre, x, y, post, rfl, rfl⟩
      · cases v with
        | nil => exact .inl ⟨ls, List.suffix_cons l ls, (List.cons.inj hv).2⟩
        | cons c v =>
          obtain ⟨rfl, rfl⟩ := List.cons.inj hv
          obtain ⟨x, y, rfl, rfl⟩ := labelText_eq hl
          exact .inr ⟨[], x, y, ls, rfl, rfl⟩

/-! ## Text without backslashes -/

/-- The octets of a label as characters, without any marks. -/
def plain (l : Label) : Text :=
  l.map fun b => Char.ofNat b.toNat

theorem octetText_plain : ∀ atStart b, '\\' ∉ octetText atStart b →
    octetText atStart b = [Char.ofNat b.toNat] ∧ b ≠ 46 := by
  have h : ∀ n < 256, ∀ a, '\\' ∉ octetText a (UInt8.ofNat n) →
      octetText a (UInt8.ofNat n) = [Char.ofNat (UInt8.ofNat n).toNat] ∧ UInt8.ofNat n ≠ 46 := by
    decide +kernel
  intro atStart
  exact forall_octet fun n hn => h n hn atStart

theorem flatMap_octetText_plain {l : Label} (h : '\\' ∉ l.flatMap (octetText false)) :
    l.flatMap (octetText false) = plain l ∧ 46 ∉ l := by
  induction l with
  | nil => simp [plain]
  | cons b l ih =>
    simp only [List.flatMap_cons, List.mem_append, not_or] at h
    obtain ⟨hb, hdot⟩ := octetText_plain false b h.1
    obtain ⟨hl, hdots⟩ := ih h.2
    rw [List.flatMap_cons, hb, hl]
    exact ⟨rfl, by simp [hdots, Ne.symm hdot]⟩

theorem labelText_plain {l : Label} (h : '\\' ∉ labelText l) : labelText l = plain l ∧ 46 ∉ l := by
  cases l with
  | nil => simp [plain, labelText]
  | cons b l =>
    simp only [labelText, List.mem_append, not_or] at h
    obtain ⟨hb, hdot⟩ := octetText_plain true b h.1
    obtain ⟨hl, hdots⟩ := flatMap_octetText_plain h.2
    rw [labelText, hb, hl]
    exact ⟨rfl, by simp [hdots, Ne.symm hdot]⟩

theorem plain_ne_dot {l : Label} (h : 46 ∉ l) : ∀ c ∈ plain l, (c == '.') = false := by
  have hoctet : ∀ b : UInt8, b ≠ 46 → (Char.ofNat b.toNat == '.') = false :=
    forall_octet (by decide +kernel)
  intro c hc
  obtain ⟨b, hb, rfl⟩ := List.mem_map.1 hc
  exact hoctet b (ne_of_mem_of_not_mem hb h)

theorem map_plain (l : Label) : ((plain l).map fun c => UInt8.ofNat c.toNat) = l := by
  have hoctet : ∀ b : UInt8, UInt8.ofNat (Char.ofNat b.toNat).toNat = b :=
    forall_octet (by decide +kernel)
  rw [plain, List.map_map]
  exact (List.map_congr_left fun b _ => hoctet b).trans (List.map_id l)

end Name

/-! ## Labels of stripped text -/

namespace Domain

open Name

/-- Only what follows the last dot that is not at the end is stripped. -/
theorem stripDots_append_dot {s t : Text} (h : stripDots t ≠ []) :
    stripDots (s ++ '.' :: t) = s ++ '.' :: stripDots t := by
  have hdrop : (t.reverse.dropWhile (· == '.')).isEmpty = false := by
    simpa [stripDots, Text.dropTailWhile] using h
  rw [stripDots, Text.dropTailWhile, List.reverse_append, List.reverse_cons, List.append_assoc,
    List.dropWhile_append, hdrop]
  simp [stripDots, Text.dropTailWhile]

theorem stripDots_of_forall {t : Text} (h : ∀ c ∈ t, (c == '.') = false) : stripDots t = t :=
  List.rdropWhile_eq_self_iff.2 fun hne => by simp [h _ (List.getLast_mem hne)]

theorem labelsOf_plain {l : Label} (h : 46 ∉ l) : labelsOf (plain l) = [l] := by
  rw [labelsOf, Text.split_eq_singleton (plain_ne_dot h), List.map_singleton, map_plain]

theorem labelsOf_plain_append {l : Label} (h : 46 ∉ l) (t : Text) :
    labelsOf (plain l ++ '.' :: t) = l :: labelsOf t := by
  rw [labelsOf, Text.split_append (plain_ne_dot h) rfl, List.map_cons, map_plain]
  rfl

/-- Labels in text without backslashes are the labels of this text. -/
theorem labelsOf_stripDots {y : Label} {post : List Label} (hy : 46 ∉ y)
    (hpost : ∀ l ∈ post, l ≠ []) (h : '\\' ∉ dotted post) :
    labelsOf (stripDots (plain y ++ '.' :: dotted post)) = y :: post := by
  induction post generalizing y with
  | nil =>
    rw [dotted, List.flatMap_nil, stripDots_append (by simp),
      stripDots_of_forall (plain_ne_dot hy), labelsOf_plain hy]
  | cons l post ih =>
    rw [dotted_cons] at h ⊢
    simp only [List.mem_append, List.mem_cons, not_or] at h
    obtain ⟨hl, hdot⟩ := labelText_plain h.1
    have hrest := ih hdot (fun l hl => hpost l (by simp [hl])) h.2.2
    rw [← hl] at hrest
    have hne : stripDots (labelText l ++ '.' :: dotted post) ≠ [] := by
      intro hnil
      rw [hnil] at hrest
      cases hrest
      exact hpost [] (by simp) rfl
    rw [stripDots_append_dot hne, labelsOf_plain_append hy, hrest]

theorem labelsOf_stripDots_dotted {post : List Label} (hpost : ∀ l ∈ post, l ≠ [])
    (h : '\\' ∉ dotted post) (hne : stripDots (dotted post) ≠ []) :
    labelsOf (stripDots (dotted post)) = post := by
  cases post with
  | nil => exact absurd rfl hne
  | cons l post =>
    rw [dotted_cons] at h ⊢
    simp only [List.mem_append, List.mem_cons, not_or] at h
    obtain ⟨hl, hdot⟩ := labelText_plain h.1
    rw [hl]
    exact labelsOf_stripDots hdot (fun l hl => hpost l (by simp [hl])) h.2.2

/-! ## Rules that cover names -/

/-- What ends a stripped text ends the text as well, but for the dots that are stripped. -/
theorem exists_of_stripDots_eq {t u d : Text} (h : stripDots t = u ++ d) (hne : d ≠ []) :
    ∃ s, t = u ++ s ∧ d = stripDots s ∧ ∀ c ∈ s, c ∈ d ∨ c = '.' := by
  obtain ⟨dots, rfl, hdots, hlast⟩ := stripDots_eq_iff.1 h
  refine ⟨d ++ dots, List.append_assoc u d dots, ?_,
    fun c hc => (List.mem_append.1 hc).imp_right (hdots c)⟩
  rw [List.getLast?_append_of_ne_nil u hne] at hlast
  exact (stripDots_eq_iff.2 ⟨dots, rfl, hdots, hlast⟩).symm

/-- A domain without marks that covers a name ends it in labels, or behind a dot octet in one of
its labels. -/
theorem labelsOf_of_covers {n : Name} {d : Text} (hd : '\\' ∉ d) (hne : d ≠ [])
    (h : Covers d (canonical n.text)) :
    labelsOf d <:+ n.lower.labels ∨
      ∃ pre x y post, n.lower.labels = pre ++ (x ++ 46 :: y) :: post ∧
        labelsOf d = y :: post := by
  have hcanonical : canonical n.text = stripDots n.lower.text := by
    rw [canonical, ← stripDots_lower, lower_text]
  rw [hcanonical] at h
  generalize n.lower = m at h ⊢
  by_cases hroot : m.labels = []
  · rw [text_of_nil hroot] at h
    rcases h with h | h
    · exact absurd h.symm hne
    · simp [stripDots, Text.dropTailWhile] at h
  have hlabels : ∀ l ∈ m.labels, l ≠ [] := fun l hl => (m.fits.1 l hl).1
  rw [text_of_ne_nil hroot] at h
  change Covers d (stripDots (dotted m.labels)) at h
  -- where the domain begins in the text, there a label or what follows a dot octet begins
  have hsplit : ∃ s, d = stripDots s ∧ '\\' ∉ s ∧ ((∃ post, post <:+ m.labels ∧ s = dotted post) ∨
      ∃ pre x y post, m.labels = pre ++ (x ++ 46 :: y) :: post ∧
        s = y.flatMap (octetText false) ++ '.' :: dotted post) := by
    have hmarks : ∀ s : Text, (∀ c ∈ s, c ∈ d ∨ c = '.') → '\\' ∉ s := fun s hs hmem =>
      (hs _ hmem).elim hd (by decide)
    rcases h with h | ⟨u, hu⟩
    · obtain ⟨s, ht, hs, hchars⟩ := @exists_of_stripDots_eq _ [] d h hne
      exact ⟨s, hs, hmarks s hchars, .inl ⟨m.labels, List.suffix_refl _, ht.symm⟩⟩
    · obtain ⟨s, ht, hs, hchars⟩ := @exists_of_stripDots_eq _ (u ++ ['.']) d
        (by rw [← hu, List.append_assoc]; rfl) hne
      rw [List.append_assoc] at ht
      exact ⟨s, hs, hmarks s hchars, dotted_eq ht⟩
  obtain ⟨s, rfl, hs, ⟨post, hpost, rfl⟩ | ⟨pre, x, y, post, hm, rfl⟩⟩ := hsplit
  · left
    rwa [labelsOf_stripDots_dotted (fun l hl => hlabels l (hpost.subset hl)) hs hne]
  · right
    refine ⟨pre, x, y, post, hm, ?_⟩
    simp only [List.mem_append, List.mem_cons, not_or] at hs
    obtain ⟨hy, hdot⟩ := flatMap_octetText_plain hs.1
    rw [hy]
    exact labelsOf_stripDots hdot (fun l hl => hlabels l (by simp [hm, hl])) hs.2.2

end Domain

/-! ## Verdicts on names -/

namespace RuleList

/-- A name has the verdict of a rule domain that its labels end in, or whose labels are what follows
a dot octet in one of its labels.  In names without dot octets rules match at labels only. -/
theorem verdict_at_label_or_dot (lines : List Text) (n : Name) (b : Bool)
    (hhost : ∀ rule ∈ lines.filterMap Rule.parse?, ∀ c ∈ rule.domain, Domain.isHostChar c = true)
    (h : (ofLines lines).classifier (Domain.canonical n.text) = some b) :
    ∃ d, Rule.Decides (lines.filterMap Rule.parse?) (Domain.canonical n.text) d ∧
      (b = true ↔ Rule.Blocks (lines.filterMap Rule.parse?) d) ∧
      (Domain.labelsOf d <:+ n.lower.labels ∨
        ∃ pre x y post, n.lower.labels = pre ++ (x ++ 46 :: y) :: post ∧
          Domain.labelsOf d = y :: post) ∧
      ((∀ l ∈ n.labels, 46 ∉ l) → Domain.labelsOf d <:+ n.lower.labels) := by
  have hne : ∀ rule ∈ lines.filterMap Rule.parse?, rule.domain ≠ [] := fun rule hrule =>
    (Rule.nameable_of_mem hrule).1
  obtain ⟨d, hdecides, rfl⟩ := (verdict?_eq_some_iff hne).1 h
  have hd := hdecides.covers
  rw [Domain.canonical_canonical] at hdecides hd
  obtain ⟨rule, hrule, hrd⟩ := hdecides.held
  have hmarks : '\\' ∉ d := fun hmem =>
    Domain.ne_backslash_of_isHostChar (hhost rule hrule _ (hrd ▸ hmem)) rfl
  have hlabels := Domain.labelsOf_of_covers hmarks (hrd ▸ hne rule hrule) hd
  refine ⟨d, hdecides, decide_eq_true_iff, hlabels, fun hdots => hlabels.resolve_right ?_⟩
  rintro ⟨pre, x, y, post, hn, -⟩
  have hoctet : ∀ b, Name.lowerOctet b = 46 → b = 46 := forall_octet (by decide +kernel)
  obtain ⟨l, hl, hlower⟩ := List.mem_map.1 (show x ++ 46 :: y ∈ n.lower.labels by simp [hn])
  obtain ⟨b, hb, hb46⟩ := List.mem_map.1 (show 46 ∈ l.map Name.lowerOctet by simp [hlower])
  exact hdots l hl (hoctet b hb46 ▸ hb)

theorem rules_google :
    ["||google.com".toList].filterMap Rule.parse? = [.block "google.com".toList] := by
  decide +kernel

theorem isHostChar_google : ∀ rule ∈ ["||google.com".toList].filterMap Rule.parse?,
    ∀ c ∈ rule.domain, Domain.isHostChar c = true := by
  have hall : "google.com".toList.all Domain.isHostChar = true := by decide +kernel
  intro rule hrule
  rw [rules_google] at hrule
  rw [List.mem_singleton.1 hrule]
  exact List.all_eq_true.1 hall

theorem blocks_google {t : Text}
    (h : Domain.Covers "google.com".toList (Domain.canonical t)) :
    (ofLines ["||google.com".toList]).verdict? t = some true := by
  rw [ofLines, rules_google]
  refine (verdict?_eq_some_iff (by decide)).2 ⟨"google.com".toList,
    ⟨⟨_, List.mem_singleton_self _, rfl⟩, h, ?_⟩, ?_⟩
  · intro rule hrule _
    rw [List.mem_singleton.1 hrule]
    exact Nat.le_refl _
  · decide

/-- `www.google.com.` is blocked as a name that ends in the labels of `google.com`. -/
theorem verdict_at_label_or_dot_www :
    let lines := ["||google.com".toList]
    let n : Name :=
      ⟨[[119, 119, 119], [103, 111, 111, 103, 108, 101], [99, 111, 109]], by decide⟩
    (ofLines lines).classifier (Domain.canonical n.text) = some true ∧
      ∃ d, Rule.Decides (lines.filterMap Rule.parse?) (Domain.canonical n.text) d ∧
        Domain.labelsOf d <:+ n.lower.labels := by
  intro lines n
  have hblocked : (ofLines lines).classifier (Domain.canonical n.text) = some true :=
    blocks_google (by decide +kernel)
  obtain ⟨d, hdecides, -, -, hlabels⟩ :=
    verdict_at_label_or_dot lines n true isHostChar_google hblocked
  exact ⟨hblocked, d, hdecides, hlabels (by decide)⟩

/-- The name of the labels `x.google` and `com` is blocked by a rule for `google.com`, and it does
not stand below that domain. -/
theorem verdict_across_dot :
    ¬ ∀ (lines : List Text) (n : Name) (b : Bool),
      (∀ rule ∈ lines.filterMap Rule.parse?, ∀ c ∈ rule.domain, Domain.isHostChar c = true) →
      (ofLines lines).classifier (Domain.canonical n.text) = some b →
      ∃ d, Rule.Decides (lines.filterMap Rule.parse?) (Domain.canonical n.text) d ∧
        Domain.labelsOf d <:+ n.lower.labels := by
  intro h
  let n : Name := ⟨[[120, 46, 103, 111, 111, 103, 108, 101], [99, 111, 109]], by decide⟩
  obtain ⟨d, hdecides, hlabels⟩ := h ["||google.com".toList] n true isHostChar_google
    (blocks_google (by decide +kernel))
  obtain ⟨rule, hrule, rfl⟩ := hdecides.held
  have hrule : rule = .block "google.com".toList := by
    rw [rules_google] at hrule
    exact List.mem_singleton.1 hrule
  rw [hrule] at hlabels
  exact absurd hlabels (by decide)

end RuleList

end SplitDns
