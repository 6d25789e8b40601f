import Mathlib.Data.List.Induction
import SplitDns.Proofs.CanonicalForm
import SplitDns.Proofs.LetterCase
import SplitDns.Proofs.Pieces

/-!
# The longest suffix decides

A rule list answers with the longest of its domains that covers a name, that is, equals it or ends
it behind a dot (`RuleList.longest_suffix_decides`).  The search for it climbs from a name to its
parent and stops at the first domain that the list holds; `Domain.covers_iff_parent?` says that a
climb comes past all domains that cover the name, the longest of them first.  What the list holds
for a domain depends on which rules there are for it, not on their order or number
(`RuleList.get?_ofRules`).
-/

namespace SplitDns

/-! ## Covering -/

namespace Domain

/-- A domain covers itself and the domains that end in it behind a dot. -/
def Covers (d domain : Text) : Prop :=
  domain = d ∨ '.' :: d <:+ domain

instance (d domain : Text) : Decidable (Covers d domain) := by
  unfold Covers
  infer_instance

theorem Covers.refl (d : Text) : Covers d d :=
  .inl rfl

theorem Covers.suffix {d domain : Text} (h : Covers d domain) : d <:+ domain := by
  rcases h with rfl | h
  · exact List.suffix_refl domain
  · exact (List.suffix_cons '.' d).trans h

theorem Covers.length_le {d domain : Text} (h : Covers d domain) : d.length ≤ domain.length :=
  h.suffix.length_le

/-- Of the domains of one length at most one covers a name. -/
theorem Covers.eq_of_length {d d' domain : Text} (h : Covers d domain) (h' : Covers d' domain)
    (hlen : d.length = d'.length) : d = d' :=
  (List.suffix_of_suffix_length_le h.suffix h'.suffix (Nat.le_of_eq hlen)).eq_of_length hlen

end Domain

namespace RuleList

theorem eq_append_of_parent? {domain p : Text} (h : parent? domain = some p) :
    ∃ first, domain = first ++ '.' :: p := by
  simp only [parent?, Option.filter_eq_some_iff, Option.map_eq_some_iff] at h
  obtain ⟨⟨⟨first, rest⟩, hc, rfl⟩, -⟩ := h
  exact ⟨first, (Text.eq_append_of_cutFirst? hc).1⟩

/-- The name above a domain with a dot is all that follows the first dot. -/
theorem parent?_append {first rest : Text} (hfirst : '.' ∉ first) (hrest : rest ≠ []) :
    parent? (first ++ '.' :: rest) = some rest := by
  simp [parent?, Text.cutFirst?_append hfirst, hrest]

/-- What covers the parent of a domain covers the domain. -/
theorem covers_of_parent? {d domain p : Text} (hp : parent? domain = some p)
    (h : Domain.Covers d p) : Domain.Covers d domain := by
  obtain ⟨first, rfl⟩ := eq_append_of_parent? hp
  rcases h with rfl | hsuffix
  · exact .inr (List.suffix_append first _)
  · exact .inr (hsuffix.trans ((List.suffix_cons '.' p).trans (List.suffix_append first _)))

end RuleList

/-- A domain is covered by itself and by what covers its parent. -/
theorem Domain.covers_iff_parent? {d domain : Text} (hd : d ≠ []) :
    Covers d domain ↔ domain = d ∨ ∃ p, RuleList.parent? domain = some p ∧ Covers d p := by
  constructor
  · rintro (h | ⟨u, hu⟩)
    · exact .inl h
    · refine .inr ?_
      cases hcut : Text.cutFirst? '.' domain with
      | none =>
        have hdot := Text.not_mem_of_cutFirst?_eq_none hcut
        simp [← hu] at hdot
      | some pieces =>
        obtain ⟨first, rest⟩ := pieces
        obtain ⟨hdomain, hfirst⟩ := Text.eq_append_of_cutFirst? hcut
        -- the first dot stands before `d`, or it is the one in front of `d`
        have hcovers : rest ≠ [] ∧ Covers d rest := by
          rw [hdomain] at hu
          rcases List.append_eq_append_iff.1 hu with ⟨v, rfl, hv⟩ | ⟨v, rfl, hv⟩
          · cases v with
            | nil =>
              cases hv
              exact ⟨hd, .refl d⟩
            | cons c v =>
              cases hv
              exact absurd (by simp) hfirst
          · cases v with
            | nil =>
              cases hv
              exact ⟨hd, .refl d⟩
            | cons c v =>
              cases hv
              exact ⟨by simp, .inr (List.suffix_append v _)⟩
        exact ⟨rest, hdomain ▸ RuleList.parent?_append hfirst hcovers.1, hcovers.2⟩
  · rintro (h | ⟨p, hp, hcovers⟩)
    · exact .inl h
    · exact RuleList.covers_of_parent? hp hcovers

/-! ## What a list holds -/

namespace RuleList

theorem lookup_mark (rule : Rule) (es : List (Text × RuleMarks)) (d : Text) :
    (mark rule es).lookup d =
      if d = rule.domain then some (((es.lookup d).getD .none).add rule) else es.lookup d := by
  induction es with
  | nil =>
    by_cases hd : d = rule.domain
    · simp [mark, hd]
    · simp [mark, hd, List.lookup_cons, beq_false_of_ne hd]
  | cons e es ih =>
    obtain ⟨d', m⟩ := e
    unfold mark
    by_cases hd' : d' = rule.domain
    · rw [if_pos hd']
      by_cases hd : d = rule.domain
      · simp [hd, hd']
      · simp [hd, hd', List.lookup_cons, beq_false_of_ne hd]
    · rw [if_neg hd']
      by_cases hd : d = d'
      · simp [hd, hd']
      · simp only [List.lookup_cons, beq_false_of_ne hd]
        exact ih

theorem get?_insert (l : RuleList) (rule : Rule) (d : Text) :
    (l.insert rule).get? d =
      if d = rule.domain then some (((l.get? d).getD .none).add rule) else l.get? d :=
  lookup_mark rule l.entries d

/-- The marks that a domain has from some rules. -/
def marksFrom (rules : List Rule) (d : Text) : RuleMarks :=
  ⟨decide (.block d ∈ rules), decide (.exempt d ∈ rules)⟩

theorem marksFrom_eq_none {rules : List Rule} {d : Text}
    (h : ¬ ∃ rule ∈ rules, rule.domain = d) : marksFrom rules d = .none := by
  have hblock : Rule.block d ∉ rules := fun hm => h ⟨_, hm, rfl⟩
  have hexempt : Rule.exempt d ∉ rules := fun hm => h ⟨_, hm, rfl⟩
  simp [marksFrom, hblock, hexempt, RuleMarks.none]

theorem marksFrom_concat (rules : List Rule) (rule : Rule) :
    marksFrom (rules ++ [rule]) rule.domain = (marksFrom rules rule.domain).add rule := by
  cases rule with
  | block d =>
    simp [marksFrom, RuleMarks.add, Rule.domain]
    rfl
  | exempt d =>
    simp [marksFrom, RuleMarks.add, Rule.domain]
    rfl

theorem marksFrom_concat_ne {rule : Rule} {d : Text} (h : d ≠ rule.domain) (rules : List Rule) :
    marksFrom (rules ++ [rule]) d = marksFrom rules d := by
  have hblock : Rule.block d ≠ rule := fun e => h (by rw [← e]; rfl)
  have hexempt : Rule.exempt d ≠ rule := fun e => h (by rw [← e]; rfl)
  simp [marksFrom, hblock, hexempt]

/-- The list made of some rules holds their domains, each with the marks that its rules give. -/
theorem get?_ofRules (rules : List Rule) (d : Text) :
    (ofRules rules).get? d =
      if ∃ rule ∈ rules, rule.domain = d then some (marksFrom rules d) else none := by
  induction rules using List.reverseRecOn with
  | nil => simp [ofRules, empty, get?]
  | append_singleton rules rule ih =>
    have hsnoc : ofRules (rules ++ [rule]) = (ofRules rules).insert rule := by
      rw [ofRules, List.foldl_append]
      rfl
    rw [hsnoc, get?_insert, ih]
    by_cases hd : d = rule.domain
    · subst hd
      have hbefore : (if ∃ other ∈ rules, other.domain = rule.domain then
          some (marksFrom rules rule.domain) else none).getD .none =
            marksFrom rules rule.domain := by
        split
        · rfl
        next h => exact (marksFrom_eq_none h).symm
      rw [if_pos rfl, hbefore, if_pos ⟨rule, by simp, rfl⟩, marksFrom_concat]
    · rw [if_neg hd, marksFrom_concat_ne hd]
      simp [or_and_right, exists_or, Ne.symm hd]

end RuleList

/-! ## The search -/

namespace RuleList

variable {l : RuleList} {domain : Text}

/-- The search finds the marks of the longest domain of a list that covers a name. -/
theorem longest_of_longest? {m : RuleMarks} (h : l.longest? domain = some m) :
    ∃ d, Domain.Covers d domain ∧ l.get? d = some m ∧ ∀ d', d' ≠ [] → Domain.Covers d' domain →
      (l.get? d').isSome → d'.length ≤ d.length := by
  fun_induction longest? l domain with
  | case1 domain m' hm =>
    cases h
    exact ⟨domain, .refl domain, hm, fun d' _ hcovers _ => hcovers.length_le⟩
  | case2 domain hnone p hp ih =>
    obtain ⟨d, hcovers, hd, hlongest⟩ := ih h
    refine ⟨d, covers_of_parent? hp hcovers, hd, fun d' hne hcovers' hheld => ?_⟩
    rcases (Domain.covers_iff_parent? hne).1 hcovers' with rfl | ⟨p', hp', hcovers'⟩
    · simp [hnone] at hheld
    · rw [hp] at hp'
      cases hp'
      exact hlongest d' hne hcovers' hheld
  | case3 domain hnone hp => cases h

/-- The search finds nothing only if a list holds no domain that covers a name. -/
theorem get?_of_longest?_eq_none (h : l.longest? domain = none) {d : Text} (hne : d ≠ [])
    (hcovers : Domain.Covers d domain) : l.get? d = none := by
  fun_induction longest? l domain with
  | case1 domain m hm => cases h
  | case2 domain hnone p hp ih =>
    rcases (Domain.covers_iff_parent? hne).1 hcovers with rfl | ⟨p', hp', hcovers⟩
    · exact hnone
    · rw [hp] at hp'
      cases hp'
      exact ih h hcovers
  | case3 domain hnone hp =>
    rcases (Domain.covers_iff_parent? hne).1 hcovers with rfl | ⟨p', hp', hcovers⟩
    · exact hnone
    · rw [hp] at hp'
      cases hp'

end RuleList

/-! ## Verdicts -/

/-- Whether the rules for a domain decide on a canonical name: they cover it, and no rules for a
longer domain do. -/
structure Rule.Decides (rules : List Rule) (name d : Text) : Prop where
  held : ∃ rule ∈ rules, rule.domain = d
  covers : Domain.Covers d name
  longest : ∀ rule ∈ rules, Domain.Covers rule.domain name → rule.domain.length ≤ d.length

theorem Rule.Decides.unique {rules : List Rule} {name d d' : Text} (h : Decides rules name d)
    (h' : Decides rules name d') : d = d' := by
  obtain ⟨rule, hrule, rfl⟩ := h.held
  obtain ⟨rule', hrule', rfl⟩ := h'.held
  exact h.covers.eq_of_length h'.covers
    (Nat.le_antisymm (h'.longest rule hrule h.covers) (h.longest rule' hrule' h'.covers))

/-- What the rules for a domain say: to block it, unless one of them exempts it. -/
def Rule.Blocks (rules : List Rule) (d : Text) : Prop :=
  .block d ∈ rules ∧ .exempt d ∉ rules

instance (rules : List Rule) (d : Text) : Decidable (Rule.Blocks rules d) := by
  unfold Rule.Blocks
  infer_instance

namespace RuleList

variable {rules : List Rule}

theorem verdict_marksFrom (rules : List Rule) (d : Text) :
    (marksFrom rules d).verdict = decide (Rule.Blocks rules d) := by
  rw [Bool.eq_iff_iff, decide_eq_true_iff]
  simp [marksFrom, RuleMarks.verdict, Rule.Blocks]

theorem decides_of_verdict? (hne : ∀ rule ∈ rules, rule.domain ≠ []) {t : Text} {b : Bool}
    (h : (ofRules rules).verdict? t = some b) :
    ∃ d, Rule.Decides rules (Domain.canonical t) d ∧ b = decide (Rule.Blocks rules d) := by
  obtain ⟨m, hm, rfl⟩ := Option.map_eq_some_iff.1 h
  obtain ⟨d, hcovers, hd, hlongest⟩ := longest_of_longest? hm
  rw [get?_ofRules, Option.ite_none_right_eq_some] at hd
  obtain ⟨hheld, hmarks⟩ := hd
  cases hmarks
  refine ⟨d, ⟨hheld, hcovers, fun rule hrule hcovers' => ?_⟩, verdict_marksFrom rules d⟩
  refine hlongest rule.domain (hne rule hrule) hcovers' ?_
  rw [get?_ofRules, if_pos ⟨rule, hrule, rfl⟩]
  rfl

/-- A name has no verdict when no rule covers it. -/
theorem verdict?_eq_none_iff (hne : ∀ rule ∈ rules, rule.domain ≠ []) {t : Text} :
    (ofRules rules).verdict? t = none ↔
      ∀ rule ∈ rules, ¬ Domain.Covers rule.domain (Domain.canonical t) := by
  constructor
  · intro h rule hrule hcovers
    have hget := get?_of_longest?_eq_none (Option.map_eq_none_iff.1 h) (hne rule hrule) hcovers
    rw [get?_ofRules, if_pos ⟨rule, hrule, rfl⟩] at hget
    cases hget
  · intro h
    cases hv : (ofRules rules).verdict? t with
    | none => rfl
    | some b =>
      obtain ⟨d, hdecides, -⟩ := decides_of_verdict? hne hv
      obtain ⟨rule, hrule, rfl⟩ := hdecides.held
      exact absurd hdecides.covers (h rule hrule)

/-- A name has the verdict of the longest domain that covers it. -/
theorem verdict?_eq_some_iff (hne : ∀ rule ∈ rules, rule.domain ≠ []) {t : Text} {b : Bool} :
    (ofRules rules).verdict? t = some b ↔
      ∃ d, Rule.Decides rules (Domain.canonical t) d ∧ b = decide (Rule.Blocks rules d) := by
  refine ⟨decides_of_verdict? hne, ?_⟩
  rintro ⟨d, hdecides, rfl⟩
  cases hv : (ofRules rules).verdict? t with
  | none =>
    obtain ⟨rule, hrule, rfl⟩ := hdecides.held
    exact absurd hdecides.covers ((verdict?_eq_none_iff hne).1 hv rule hrule)
  | some b =>
    obtain ⟨d', hdecides', rfl⟩ := decides_of_verdict? hne hv
    rw [hdecides.unique hdecides']

end RuleList

/-! ## Domains of rule lines -/

namespace Domain

theorem stripDots_stripDots (t : Text) : stripDots (stripDots t) = stripDots t :=
  List.rdropWhile_idempotent (· == '.') t

theorem canonical_canonical (t : Text) : canonical (canonical t) = canonical t := by
  rw [canonical, canonical, stripDots_lower, stripDots_stripDots, Text.lower_lower]

end Domain

namespace Rule

/-- Whether the domain of a rule is one that names can have: not empty, and in canonical form. -/
def Nameable (rule : Rule) : Prop :=
  rule.domain ≠ [] ∧ Domain.canonical rule.domain = rule.domain

theorem nameable_of_pattern? {pattern d : Text} (h : pattern? pattern = some d) :
    d ≠ [] ∧ Domain.canonical d = d := by
  unfold pattern? at h
  split at h
  · obtain ⟨rest, -, h⟩ := Option.bind_eq_some_iff.1 h
    simp only [Option.ite_none_left_eq_some, Option.some.injEq] at h
    obtain ⟨hd, rfl⟩ := h
    exact ⟨fun hnil => hd (by simp [hnil]), Domain.canonical_canonical _⟩
  · cases h

/-- The parser gives domains in the form in which names are looked up. -/
theorem nameable_of_parse? {line : Text} {rule : Rule} (h : parse? line = some rule) :
    rule.Nameable := by
  unfold parse? at h
  split at h
  case h_4 =>
    obtain ⟨d, hd, rfl⟩ := Option.map_eq_some_iff.1 h
    exact nameable_of_pattern? hd
  case h_5 =>
    obtain ⟨d, hd, rfl⟩ := Option.map_eq_some_iff.1 h
    exact nameable_of_pattern? hd
  all_goals cases h

theorem nameable_of_mem {lines : List Text} {rule : Rule} (h : rule ∈ lines.filterMap parse?) :
    rule.Nameable := by
  obtain ⟨line, -, hline⟩ := List.mem_filterMap.1 h
  exact nameable_of_parse? hline

end Rule

/-! ## Rule lists from lines -/

namespace RuleList

/-- Rules that decide on the same names in the same way give the same verdicts. -/
theorem verdict?_congr {rules rules' : List Rule} (hne : ∀ rule ∈ rules, rule.domain ≠ [])
    (hne' : ∀ rule ∈ rules', rule.domain ≠ []) {t : Text}
    (h : ∀ rule, Domain.Covers rule.domain (Domain.canonical t) → (rule ∈ rules' ↔ rule ∈ rules)) :
    (ofRules rules').verdict? t = (ofRules rules).verdict? t := by
  have hdecides : ∀ {rules rules' : List Rule} {d : Text},
      (∀ rule, Domain.Covers rule.domain (Domain.canonical t) →
        (rule ∈ rules' ↔ rule ∈ rules)) → Rule.Decides rules (Domain.canonical t) d →
      Rule.Decides rules' (Domain.canonical t) d ∧
        decide (Rule.Blocks rules' d) = decide (Rule.Blocks rules d) := by
    intro rules rules' d h hd
    refine ⟨⟨?_, hd.covers, fun rule hrule hcovers => ?_⟩, ?_⟩
    · obtain ⟨rule, hrule, rfl⟩ := hd.held
      exact ⟨rule, (h rule hd.covers).2 hrule, rfl⟩
    · exact hd.longest rule ((h rule hcovers).1 hrule) hcovers
    · rw [decide_eq_decide]
      exact and_congr (h (.block d) hd.covers) (not_congr (h (.exempt d) hd.covers))
  ext b
  rw [verdict?_eq_some_iff hne, verdict?_eq_some_iff hne']
  constructor
  · rintro ⟨d, hd, rfl⟩
    obtain ⟨hd', hblocks⟩ := hdecides (fun rule hcovers => (h rule hcovers).symm) hd
    exact ⟨d, hd', hblocks.symm⟩
  · rintro ⟨d, hd, rfl⟩
    obtain ⟨hd', hblocks⟩ := hdecides h hd
    exact ⟨d, hd', hblocks.symm⟩

/-- The verdict on a text is that of the longest rule domain that the text, without trailing dots
and in small letters, equals or ends in behind a dot: blocked when a line blocks this domain and
none exempts it.  So the order and number of lines do not matter, each rule is in force for its
domain and all below that no longer rule domain covers, and a further line changes no verdict but
those on names that its domain covers. -/
theorem longest_suffix_decides (lines : List Text) :
    let rules := lines.filterMap Rule.parse?
    (∀ t name, Domain.Canonical t name ↔ name = Domain.canonical t) ∧
    (∀ t, (ofLines lines).verdict? t = none ↔
      ∀ rule ∈ rules, ¬ Domain.Covers rule.domain (Domain.canonical t)) ∧
    (∀ t b, (ofLines lines).verdict? t = some b ↔
      ∃ d, Rule.Decides rules (Domain.canonical t) d ∧
        (b = true ↔ .block d ∈ rules ∧ .exempt d ∉ rules)) ∧
    (∀ lines', (∀ line, line ∈ lines' ↔ line ∈ lines) →
      (ofLines lines').verdict? = (ofLines lines).verdict?) ∧
    (∀ rule ∈ rules,
      let inForce := fun t => (ofLines lines).verdict? t =
        some (decide (.block rule.domain ∈ rules ∧ .exempt rule.domain ∉ rules))
      inForce rule.domain ∧
      ∀ t, Domain.Covers rule.domain (Domain.canonical t) →
        (∀ other ∈ rules, Domain.Covers other.domain (Domain.canonical t) →
          ¬ rule.domain.length < other.domain.length) → inForce t) ∧
    ∀ line lines', (∀ l, l ∈ lines' ↔ l = line ∨ l ∈ lines) →
      ∀ t, (∀ rule, Rule.parse? line = some rule →
        ¬ Domain.Covers rule.domain (Domain.canonical t)) →
      (ofLines lines').verdict? t = (ofLines lines).verdict? t := by
  intro rules
  have hne : ∀ {lines : List Text}, ∀ rule ∈ lines.filterMap Rule.parse?, rule.domain ≠ [] :=
    fun rule hrule => (Rule.nameable_of_mem hrule).1
  have hsome : ∀ t b, (ofLines lines).verdict? t = some b ↔
      ∃ d, Rule.Decides rules (Domain.canonical t) d ∧ b = decide (Rule.Blocks rules d) :=
    fun t b => verdict?_eq_some_iff hne
  refine ⟨fun t name => Domain.canonical_iff.trans eq_comm, fun t => verdict?_eq_none_iff hne,
    fun t b => ?_, fun lines' hsame => ?_, fun rule hrule => ?_,
    fun line lines' hadd t hline => ?_⟩
  · rw [hsome]
    refine exists_congr fun d => and_congr_right fun _ => ?_
    rw [Bool.eq_iff_iff, decide_eq_true_iff]
    rfl
  · funext t
    refine verdict?_congr hne hne fun rule _ => ?_
    simp only [List.mem_filterMap, hsame]
  · have hforce : ∀ t, Domain.Covers rule.domain (Domain.canonical t) →
        (∀ other ∈ rules, Domain.Covers other.domain (Domain.canonical t) →
          ¬ rule.domain.length < other.domain.length) →
        (ofLines lines).verdict? t = some (decide (Rule.Blocks rules rule.domain)) :=
      fun t hcovers hlongest => (hsome t _).2 ⟨rule.domain, ⟨⟨rule, hrule, rfl⟩, hcovers,
        fun other hother h => Nat.not_lt.1 (hlongest other hother h)⟩, rfl⟩
    have hnormal := (Rule.nameable_of_mem hrule).2
    refine ⟨hforce rule.domain ?_ fun other _ hcovers => ?_, hforce⟩
    · rw [hnormal]
      exact .refl _
    · rw [hnormal] at hcovers
      exact Nat.not_lt.2 hcovers.length_le
  · refine verdict?_congr hne hne fun rule hcovers => ?_
    simp only [List.mem_filterMap, hadd]
    constructor
    · rintro ⟨l, rfl | hl, hrule⟩
      · exact absurd hcovers (hline rule hrule)
      · exact ⟨l, hl, hrule⟩
    · rintro ⟨l, hl, hrule⟩
      exact ⟨l, .inr hl, hrule⟩

end RuleList

end SplitDns
