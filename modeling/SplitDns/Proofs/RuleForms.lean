import SplitDns.Proofs.LabelBoundary
import SplitDns.Proofs.NameSpelling

/-!
# Forms of rule lines

A host may stand in a rule line behind one of five anchors, with a tail after it that is ignored and
blanks around, and the line parses to the rule for the host in small letters.  Whatever a line
parses to, its domain is in a form that no further parse changes.  Both directions rest on what a
domain has to be to come through a pattern whole (`Rule.IsDomain`), and together they are
`Rule.parse?_forms`.
-/

namespace SplitDns

/-! ## Blanks around a text -/

namespace Text

/-- Blanks around a text are trimmed, and of a tail of the text only blanks at its end. -/
theorem trim_around {before body tail after : Text} (hbefore : ∀ c ∈ before, isBlank c = true)
    (hafter : ∀ c ∈ after, isBlank c = true) (hne : body ≠ [])
    (hbody : ∀ c ∈ body, isBlank c = false) :
    ∃ rest, rest <+: tail ∧ trim (before ++ body ++ tail ++ after) = body ++ rest := by
  obtain ⟨blanks, htail, hblanks, hlast⟩ :=
    dropTailWhile_eq_iff.1 (Eq.refl (dropTailWhile isBlank tail))
  generalize dropTailWhile isBlank tail = rest at htail hlast
  subst htail
  have htrimmed : Trimmed (before ++ (body ++ rest) ++ (blanks ++ after)) (body ++ rest) := by
    refine .intro hbefore (List.forall_mem_append.2 ⟨hblanks, hafter⟩) (fun c hc => ?_)
      fun c hc => ?_
    · rw [List.head?_append_of_ne_nil body hne] at hc
      exact hbody c (List.mem_of_head? hc)
    · rw [List.getLast?_append, Option.or_eq_some_iff] at hc
      rcases hc with hc | ⟨-, hc⟩
      · exact hlast c hc
      · exact hbody c (List.mem_of_getLast? hc)
  exact ⟨rest, List.prefix_append rest blanks, by simpa using trimmed_iff.1 htrimmed⟩

end Text

namespace Rule

/-! ## Domains -/

/-- What a text has to be to come through a pattern whole. -/
structure IsDomain (d : Text) : Prop where
  ne_nil : d ≠ []
  chars : ∀ c ∈ d, Text.isBlank c = false ∧ endsHost c = false ∧ c ≠ '*'
  head : d.head? ≠ some '.'
  last : d.getLast? ≠ some '.'

/-- What may follow a host. -/
structure IsTail (t : Text) : Prop where
  first : ∀ c, t.head? = some c → c ∈ ['/', '^', '?', ':']
  plain : '*' ∉ t

theorem endsHost_iff {c : Char} : endsHost c = true ↔ c ∈ ['/', '^', '?', ':'] := by
  simp [endsHost, or_assoc]

theorem IsTail.of_prefix {s t : Text} (ht : IsTail t) (h : s <+: t) : IsTail s := by
  refine ⟨fun c hc => ht.first c ?_, fun hmem => ht.plain (h.subset hmem)⟩
  obtain ⟨r, rfl⟩ := List.head?_eq_some_iff.1 hc
  obtain ⟨u, rfl⟩ := h
  rfl

theorem isTail_nil : IsTail [] :=
  ⟨by simp, by simp⟩

theorem host_append {d t : Text} (hd : IsDomain d) (ht : IsTail t) :
    host (d ++ t) = Text.lower d := by
  have htake : (d ++ t).takeWhile (fun c => !endsHost c) = d := by
    rw [List.takeWhile_append_of_pos (by simpa using fun c hc => (hd.chars c hc).2.1)]
    cases t with
    | nil => simp
    | cons c t => simp [endsHost_iff.2 (ht.first c rfl)]
  have hdots : d.dropWhile (· == '.') = d := by
    cases d with
    | nil => rfl
    | cons c d => exact List.dropWhile_cons_of_neg (by simpa using hd.head)
  rw [host, htake, hdots, Domain.stripDots_eq_self hd.last]

theorem isUpper_toLower (c : Char) : c.toLower.isUpper = false := by
  have hupper : ∀ d : Char, d.isUpper = true → 65 ≤ d.val.toNat ∧ d.val.toNat ≤ 90 :=
    fun d hd => of_decide_eq_true hd
  rw [← Bool.not_eq_true]
  intro h
  have hbounds := hupper _ h
  rcases Text.toLower_cases c with ⟨hc, hlower⟩ | ⟨hc, hlower⟩
  · omega
  · exact hc (hlower ▸ hbounds)

theorem isBlank_toLower : ∀ c : Char, Text.isBlank c.toLower = Text.isBlank c :=
  Text.toLower_congr (by decide)

/-- A pattern in which a domain and a tail follow the anchor stands for the domain. -/
theorem pattern?_of_anchored {pattern d t : Text} (hplain : isPlain pattern = true)
    (h : anchored? pattern = some (d ++ t)) (hd : IsDomain d) (ht : IsTail t) :
    pattern? pattern = some (Text.lower d) := by
  have hblank : (Text.lower d).any Text.isBlank = false := by
    simp only [Text.lower, List.any_map, List.any_eq_false, Function.comp_apply, isBlank_toLower]
    intro c hc
    simp [(hd.chars c hc).1]
  have hempty : (Text.lower d).isEmpty = false := by
    simpa [Text.lower] using hd.ne_nil
  rw [pattern?, if_pos hplain, h, Option.bind_some, host_append hd ht]
  exact if_neg (by simp [hblank, hempty])

theorem suffix_of_anchored? {pattern rest : Text} (h : anchored? pattern = some rest) :
    rest <:+ pattern := by
  have hafter : ∀ {lead t s : Text}, Text.after? lead t = some s → s <:+ t := by
    intro lead t s hs
    simp only [Text.after?, Option.ite_none_right_eq_some, Option.some.injEq] at hs
    exact hs.2 ▸ List.drop_suffix _ _
  unfold anchored? at h
  split at h
  · cases h
    exact (List.suffix_cons ..).trans (List.suffix_cons ..)
  · apply List.IsSuffix.trans _ (List.suffix_cons ..)
    rcases Option.or_eq_some_iff.1 h with h | ⟨-, h⟩
    · exact hafter h
    · exact hafter h
  · cases h
    exact List.suffix_cons ..
  · cases h
    exact List.suffix_refl _

/-- The characters of a host stand in the pattern, perhaps as capital letters. -/
theorem exists_of_mem_host {rest : Text} {c : Char} (h : c ∈ host rest) :
    ∃ b ∈ rest, endsHost b = false ∧ b.toLower = c := by
  obtain ⟨b, hb, rfl⟩ := List.mem_map.1 h
  have htake : b ∈ rest.takeWhile fun c => !endsHost c :=
    (List.dropWhile_sublist _).subset ((List.rdropWhile_prefix (· == '.') _).subset hb)
  exact ⟨b, (List.takeWhile_prefix _).subset htake, by simpa using List.mem_takeWhile_imp htake,
    rfl⟩

/-- There are no dots around a host. -/
theorem dots_host (rest : Text) :
    (host rest).head? ≠ some '.' ∧ (host rest).getLast? ≠ some '.' := by
  have hdot : ∀ c : Char, c.toLower = '.' ↔ c = '.' := Text.toLower_eq_iff (by decide)
  have hmap : ∀ o : Option Char, o.map Char.toLower = some '.' ↔ o = some '.' := by
    intro o
    simp only [Option.map_eq_some_iff, hdot, exists_eq_right]
  rw [host, Text.lower, List.head?_map, List.getLast?_map, Ne, Ne, hmap, hmap]
  have hfirst := List.head?_dropWhile_not (· == '.') (rest.takeWhile fun c => !endsHost c)
  generalize (rest.takeWhile fun c => !endsHost c).dropWhile (· == '.') = s at hfirst ⊢
  constructor
  · intro h
    obtain ⟨r, hr⟩ := List.head?_eq_some_iff.1 h
    obtain ⟨u, hu⟩ : Domain.stripDots s <+: s := List.rdropWhile_prefix (· == '.') s
    rw [hr] at hu
    simp [← hu] at hfirst
  · intro h
    have hne : Domain.stripDots s ≠ [] := by
      intro hnil
      simp [hnil] at h
    rw [List.getLast?_eq_getLast_of_ne_nil hne, Option.some.injEq] at h
    exact List.rdropWhile_last_not (· == '.') s hne (beq_iff_eq.2 h)

/-- What a pattern stands for is a domain in small letters. -/
theorem isDomain_of_pattern? {pattern d : Text} (h : pattern? pattern = some d) :
    IsDomain d ∧ Text.lower d = d := by
  unfold pattern? at h
  split at h
  case isFalse => cases h
  case isTrue hplain =>
    obtain ⟨rest, hrest, h⟩ := Option.bind_eq_some_iff.1 h
    simp only [Option.ite_none_left_eq_some, Bool.or_eq_true, not_or, Option.some.injEq] at h
    obtain ⟨⟨hempty, hblank⟩, rfl⟩ := h
    have hstar : '*' ∉ rest := by
      simp only [isPlain, Bool.and_eq_true, Bool.not_eq_true', List.contains_eq_mem,
        decide_eq_false_iff_not] at hplain
      exact fun hmem => hplain.2 ((suffix_of_anchored? hrest).subset hmem)
    refine ⟨⟨by simpa using hempty, fun c hc => ?_, (dots_host rest).1, (dots_host rest).2⟩,
      Text.lower_lower _⟩
    obtain ⟨b, hb, hends, rfl⟩ := exists_of_mem_host hc
    refine ⟨by simpa using fun h => hblank (List.any_eq_true.2 ⟨_, hc, h⟩), ?_, fun h => ?_⟩
    · rw [Text.toLower_congr (f := endsHost) (by decide), hends]
    · rw [Text.toLower_eq_iff (d := '*') (by decide)] at h
      exact hstar (h ▸ hb)

/-! ## Lines -/

theorem parse?_of_trim {line pattern : Text} (h : Text.trim line = pattern)
    (hfirst : ∀ c ∈ ['!', '[', '@'], pattern.head? ≠ some c) :
    parse? line = (pattern? pattern).map block := by
  cases pattern with
  | nil =>
    rw [parse?, h]
    rfl
  | cons c r =>
    have hc : c ≠ '!' ∧ c ≠ '[' ∧ c ≠ '@' := by simpa using hfirst
    rw [parse?, h]
    split <;> simp_all

theorem parse?_of_trim_marked {line pattern : Text} (h : Text.trim line = "@@".toList ++ pattern) :
    parse? line = (pattern? pattern).map exempt := by
  rw [parse?, h]
  rfl

/-- What may stand before a host. -/
def anchors : List Text :=
  ["||".toList, "|http://".toList, "|https://".toList, ['.'], []]

/-- Letters, digits, hyphens and dots. Characters beyond ASCII pass for letters. -/
def isHostChar (c : Char) : Bool :=
  Domain.isHostChar c || (128 ≤ c.toNat && !Text.isBlank c)

/-- A host as rule lines name them. -/
structure IsHost (h : Text) : Prop where
  ne_nil : h ≠ []
  chars : ∀ c ∈ h, isHostChar c = true
  head : h.head? ≠ some '.'
  last : h.getLast? ≠ some '.'

/-- The characters of hosts have no meaning of their own in a line. -/
theorem free_of_isHostChar {c : Char} (h : isHostChar c = true) :
    Text.isBlank c = false ∧ endsHost c = false ∧ c ∉ ['*', '!', '[', '@', '|'] := by
  have hascii : ∀ n < 128, Domain.isHostChar (Char.ofNat n) = true →
      Text.isBlank (Char.ofNat n) = false ∧ endsHost (Char.ofNat n) = false ∧
        Char.ofNat n ∉ ['*', '!', '[', '@', '|'] := by
    decide
  by_cases hc : c.toNat < 128
  · have hhost : Domain.isHostChar c = true := by
      simpa [isHostChar, Nat.not_le.2 hc] using h
    have hn := hascii c.toNat hc
    rw [Char.ofNat_toNat] at hn
    exact hn hhost
  · have hne : ∀ d : Char, d.toNat < 128 → c ≠ d := by
      rintro d hd rfl
      exact hc hd
    have hhost : Domain.isHostChar c = false := by
      have halnum : c.isAlphanum = false := by
        simpa using mt Text.lt_of_isAlphanum hc
      simp [Domain.isHostChar, halnum, hne '-' (by decide), hne '.' (by decide)]
    refine ⟨?_, ?_, ?_⟩
    · simpa [isHostChar, hhost, Nat.not_lt.1 hc] using h
    · simp [endsHost, hne '/' (by decide), hne '^' (by decide), hne '?' (by decide),
        hne ':' (by decide)]
    · simp [hne '*' (by decide), hne '!' (by decide), hne '[' (by decide), hne '@' (by decide),
        hne '|' (by decide)]

theorem IsHost.isDomain {h : Text} (hh : IsHost h) : IsDomain h := by
  refine ⟨hh.ne_nil, fun c hc => ?_, hh.head, hh.last⟩
  obtain ⟨hblank, hends, hfree⟩ := free_of_isHostChar (hh.chars c hc)
  exact ⟨hblank, hends, fun e => hfree (by simp [e])⟩

theorem anchored?_append {anchor : Text} (ha : anchor ∈ anchors) {c : Char} (r : Text)
    (hbar : c ≠ '|') (hdot : c ≠ '.') : anchored? (anchor ++ c :: r) = some (c :: r) := by
  simp only [anchors, List.mem_cons, List.not_mem_nil, or_false] at ha
  rcases ha with rfl | rfl | rfl | rfl | rfl
  · rfl
  · simp [anchored?, Text.after?]
  · simp [anchored?, Text.after?]
  · rfl
  · unfold anchored?
    split <;> simp_all

theorem isPlain_append {anchor : Text} (ha : anchor ∈ anchors) {c : Char} {r : Text}
    (hslash : c ≠ '/') (hstar : '*' ∉ c :: r) : isPlain (anchor ++ c :: r) = true := by
  have hhead : (anchor ++ c :: r).head? ≠ some '/' := by
    simp only [anchors, List.mem_cons, List.not_mem_nil, or_false] at ha
    rcases ha with rfl | rfl | rfl | rfl | rfl <;> simp [hslash]
  have hanchor : ∀ a ∈ anchors, '*' ∉ a := by decide
  have hmem : '*' ∉ anchor ++ c :: r := by
    rw [List.mem_append, not_or]
    exact ⟨hanchor anchor ha, hstar⟩
  rw [isPlain, beq_false_of_ne hhead]
  simpa using hmem

/-- Behind an anchor a host and a tail make a pattern for the host. -/
theorem pattern?_anchored {anchor h t : Text} (ha : anchor ∈ anchors) (hh : IsHost h)
    (ht : IsTail t) : pattern? (anchor ++ (h ++ t)) = some (Text.lower h) := by
  obtain ⟨c, r, rfl⟩ := List.exists_cons_of_ne_nil hh.ne_nil
  obtain ⟨-, hends, hfree⟩ := free_of_isHostChar (hh.chars c (List.mem_cons_self ..))
  have hdot : c ≠ '.' := by simpa using hh.head
  have hslash : c ≠ '/' := by
    rintro rfl
    cases hends
  have hstar : '*' ∉ c :: (r ++ t) := by
    rw [← List.cons_append, List.mem_append, not_or]
    exact ⟨fun hmem => (hh.isDomain.chars '*' hmem).2.2 rfl, ht.plain⟩
  refine pattern?_of_anchored (isPlain_append ha hslash hstar) ?_ hh.isDomain ht
  exact anchored?_append ha (r ++ t) (fun e => hfree (by simp [e])) hdot

/-- With blanks around it a form is trimmed to itself, but for its tail. -/
theorem trim_form {before mark anchor h t after : Text} (hmark : mark ∈ ["@@".toList, []])
    (hbefore : ∀ c ∈ before, Text.isBlank c = true) (hafter : ∀ c ∈ after, Text.isBlank c = true)
    (ha : anchor ∈ anchors) (hh : IsHost h) (ht : IsTail t) :
    ∃ t', IsTail t' ∧ Text.trim (before ++ (mark ++ anchor ++ h) ++ t ++ after) =
      mark ++ (anchor ++ (h ++ t')) := by
  have hmarks : ["@@".toList, []].all (·.all (!Text.isBlank ·)) = true := by decide
  have hanchors : anchors.all (·.all (!Text.isBlank ·)) = true := by decide
  have hbody : ∀ c ∈ mark ++ anchor ++ h, Text.isBlank c = false := by
    intro c hc
    rw [List.mem_append, List.mem_append] at hc
    rcases hc with (hc | hc) | hc
    · exact Text.not_blank_of_all (List.all_eq_true.1 hmarks mark hmark) c hc
    · exact Text.not_blank_of_all (List.all_eq_true.1 hanchors anchor ha) c hc
    · exact (hh.isDomain.chars c hc).1
  obtain ⟨t', hprefix, htrim⟩ := Text.trim_around hbefore hafter (by simp [hh.ne_nil]) hbody
  exact ⟨t', ht.of_prefix hprefix, by rw [htrim]; simp⟩

/-- No form starts like a comment, a header or an exception. -/
theorem first_form {anchor h t : Text} (ha : anchor ∈ anchors) (hh : IsHost h) :
    ∀ c ∈ ['!', '[', '@'], ([] ++ (anchor ++ (h ++ t))).head? ≠ some c := by
  obtain ⟨d, r, rfl⟩ := List.exists_cons_of_ne_nil hh.ne_nil
  obtain ⟨-, -, hfree⟩ := free_of_isHostChar (hh.chars d (List.mem_cons_self ..))
  simp only [anchors, List.mem_cons, List.not_mem_nil, or_false] at ha
  rcases ha with rfl | rfl | rfl | rfl | rfl <;> simp_all

/-- The form in which rules are written back. -/
def text : Rule → Text
  | block d => "||".toList ++ d
  | exempt d => "@@||".toList ++ d

theorem isDomain_of_parse? {line : Text} {rule : Rule} (h : parse? line = some rule) :
    IsDomain rule.domain ∧ Text.lower rule.domain = rule.domain := by
  unfold parse? at h
  split at h
  case h_4 =>
    obtain ⟨d, hd, rfl⟩ := Option.map_eq_some_iff.1 h
    exact isDomain_of_pattern? hd
  case h_5 =>
    obtain ⟨d, hd, rfl⟩ := Option.map_eq_some_iff.1 h
    exact isDomain_of_pattern? hd
  all_goals cases h

/-- Behind two bars a domain in small letters is a pattern for itself, whatever it starts with. -/
theorem pattern?_bars {d : Text} (hd : IsDomain d) (hlower : Text.lower d = d) :
    pattern? ('|' :: '|' :: d) = some d := by
  have hplain : isPlain ('|' :: '|' :: d) = true := by
    have hstar : '*' ∉ d := fun hmem => (hd.chars '*' hmem).2.2 rfl
    simp [isPlain, hstar]
  have h := pattern?_of_anchored hplain (by rw [List.append_nil]; rfl) hd isTail_nil
  rw [h, hlower]

/-- A domain is not trimmed behind a mark. -/
theorem trim_marked {mark d : Text} (hmark : ∀ c ∈ mark, Text.isBlank c = false)
    (hd : IsDomain d) : Text.trim (mark ++ d) = mark ++ d := by
  refine Text.trim_eq_self fun c hc => ?_
  rcases List.mem_append.1 hc with hc | hc
  · exact hmark c hc
  · exact (hd.chars c hc).1

/-- A rule for a domain in small letters is read back from its written form. -/
theorem parse?_text {rule : Rule} (hd : IsDomain rule.domain)
    (hlower : Text.lower rule.domain = rule.domain) : parse? rule.text = some rule := by
  cases rule with
  | block d =>
    have htrim : Text.trim ("||".toList ++ d) = "||".toList ++ d :=
      trim_marked (Text.not_blank_of_all (by decide)) hd
    rw [text, parse?_of_trim htrim (by simp)]
    exact congrArg (Option.map block) (pattern?_bars hd hlower)
  | exempt d =>
    have htrim : Text.trim ("@@||".toList ++ d) = "@@".toList ++ ("||".toList ++ d) :=
      trim_marked (Text.not_blank_of_all (by decide)) hd
    rw [text, parse?_of_trim_marked htrim]
    exact congrArg (Option.map exempt) (pattern?_bars hd hlower)

/-- Behind each anchor, with any tail and any blanks around, a host parses to the rule that blocks
it in small letters, and with the mark in front to the one that exempts it.  The domain of every
rule that a line parses to is one that names can have, and the rule is read back from what is
written of it. -/
theorem parse?_forms :
    (∀ before anchor h t after, (∀ c ∈ before, Text.isBlank c = true) → anchor ∈ anchors →
      IsHost h → IsTail t → (∀ c ∈ after, Text.isBlank c = true) →
      parse? (before ++ (anchor ++ h) ++ t ++ after) = some (block (Text.lower h)) ∧
      parse? (before ++ ("@@".toList ++ anchor ++ h) ++ t ++ after) =
        some (exempt (Text.lower h))) ∧
    ∀ line rule, parse? line = some rule →
      (rule.domain ≠ [] ∧
        (∀ c ∈ rule.domain, c.isUpper = false ∧ Text.isBlank c = false ∧
          c ∉ ['/', '^', '?', ':', '*']) ∧
        rule.domain.head? ≠ some '.' ∧ rule.domain.getLast? ≠ some '.') ∧
      parse? rule.text = some rule := by
  have hplain : ([] : Text) ∈ ["@@".toList, []] := by decide
  have hmarked : "@@".toList ∈ ["@@".toList, []] := by decide
  refine ⟨fun before anchor h t after hbefore ha hh ht hafter => ⟨?_, ?_⟩,
    fun line rule hline => ?_⟩
  · obtain ⟨t', ht', htrim⟩ := trim_form hplain hbefore hafter ha hh ht
    rw [List.nil_append] at htrim
    rw [parse?_of_trim htrim (first_form ha hh), List.nil_append, pattern?_anchored ha hh ht']
    rfl
  · obtain ⟨t', ht', htrim⟩ := trim_form hmarked hbefore hafter ha hh ht
    rw [parse?_of_trim_marked htrim, pattern?_anchored ha hh ht']
    rfl
  · obtain ⟨hd, hlower⟩ := isDomain_of_parse? hline
    refine ⟨⟨hd.ne_nil, fun c hc => ⟨?_, (hd.chars c hc).1, ?_⟩, hd.head, hd.last⟩,
      parse?_text hd hlower⟩
    · rw [← hlower] at hc
      obtain ⟨b, -, rfl⟩ := List.mem_map.1 hc
      exact isUpper_toLower b
    · obtain ⟨-, hends, hstar⟩ := hd.chars c hc
      rw [← Bool.not_eq_true, endsHost_iff] at hends
      simp_all

/-- A line for a part of `Ads.Example` with blanks around exempts `ads.example`, and so does
`@@||ads.example`. -/
theorem parse?_forms_banner :
    let rule := exempt "ads.example".toList
    parse? "  @@|https://Ads.Example/banner ".toList = some rule ∧
      parse? rule.text = some rule := by
  have hchars : "Ads.Example".toList.all isHostChar = true := by decide
  have hhost : IsHost "Ads.Example".toList :=
    ⟨by decide, List.all_eq_true.1 hchars, by decide, by decide⟩
  have hline := (parse?_forms.1 "  ".toList "|https://".toList _ "/banner".toList " ".toList
    (List.all_eq_true.1 (by decide)) (by decide) hhost ⟨by simp, by decide⟩
    (List.all_eq_true.1 (by decide))).2
  exact ⟨hline, (parse?_forms.2 _ _ hline).2⟩

end Rule

end SplitDns
