import SplitDns.Proofs.LabelBoundary

/-!
# Precedence in routing

The rows of the suffix table come first, then the rules of the groups, then the global list, and a
domain that none of them claims goes to `clean`.  `Router.Precedes` says this as a relation, with
who is asked on the way, and `Router.consult_precedence` says that the router decides and asks by
it.  Classifiers may be any functions, and all that matters of them is what they answer for the
canonical domain.
-/

namespace SplitDns

namespace SuffixRule

/-- Whether a row claims a canonical domain: its suffix in canonical form is not empty and ends the
domain. -/
def Claims (row : SuffixRule) (domain : Text) : Prop :=
  ∃ suffix, Domain.Canonical row.suffix suffix ∧ suffix ≠ [] ∧ suffix <:+ domain

theorem claims_iff {row : SuffixRule} {domain : Text} :
    row.Claims domain ↔ row.canonical ≠ [] ∧ row.canonical <:+ domain := by
  constructor
  · rintro ⟨suffix, hsuffix, h⟩
    rwa [← Domain.canonical_iff.1 hsuffix] at h
  · exact fun h => ⟨row.canonical, Domain.canonical_iff.2 rfl, h⟩

instance (row : SuffixRule) (domain : Text) : Decidable (row.Claims domain) :=
  decidable_of_iff _ claims_iff.symm

end SuffixRule

namespace Router

/-- How the rules of groups are asked, in order. -/
def askedOf (rules : List (Text × Classifier)) : List Consulted :=
  rules.map fun p => .group p.1

/-- What is decided on a canonical domain, and who is asked for it. -/
inductive Precedes (rows : List SuffixRule) (rules : List (Text × Classifier))
    (global : Option Classifier) (domain : Text) : Decision → List Consulted → Prop
  /-- The first row that claims the domain decides, and nobody is asked. -/
  | row {before after : List SuffixRule} {row : SuffixRule} (hrows : rows = before ++ row :: after)
      (hbefore : ∀ other ∈ before, ¬ other.Claims domain) (h : row.Claims domain) :
      Precedes rows rules global domain ⟨row.group, .suffix row.suffix⟩ []
  /-- Of the rules of groups the first that block decide, and those after them are not asked. -/
  | rules {before after : List (Text × Classifier)} {name : Text} {classifier : Classifier}
      (hrows : ∀ row ∈ rows, ¬ row.Claims domain)
      (hrules : rules = before ++ (name, classifier) :: after)
      (hbefore : ∀ p ∈ before, p.2 domain ≠ some true) (h : classifier domain = some true) :
      Precedes rows rules global domain ⟨name, .rules⟩ (askedOf before ++ [.group name])
  /-- The global list decides either way. -/
  | listed {classifier : Classifier} (hrows : ∀ row ∈ rows, ¬ row.Claims domain)
      (hrules : ∀ p ∈ rules, p.2 domain ≠ some true) (hglobal : global = some classifier)
      (blocked : Bool) (h : classifier domain = some blocked) :
      Precedes rows rules global domain ⟨if blocked then dirtyGroup else cleanGroup, .classifier⟩
        (askedOf rules ++ [.global])
  | unlisted {classifier : Classifier} (hrows : ∀ row ∈ rows, ¬ row.Claims domain)
      (hrules : ∀ p ∈ rules, p.2 domain ≠ some true) (hglobal : global = some classifier)
      (h : classifier domain = none) :
      Precedes rows rules global domain ⟨cleanGroup, .default⟩ (askedOf rules ++ [.global])
  | alone (hrows : ∀ row ∈ rows, ¬ row.Claims domain)
      (hrules : ∀ p ∈ rules, p.2 domain ≠ some true) (hglobal : global = none) :
      Precedes rows rules global domain ⟨cleanGroup, .default⟩ (askedOf rules)

variable {rows : List SuffixRule} {rules : List (Text × Classifier)} {global : Option Classifier}

/-! ## The two searches -/

/-- Rows with an empty suffix claim nothing, so that it does not matter that they are dropped. -/
theorem suffixRule?_of (rows : List SuffixRule) (rules : List (Text × Classifier))
    (global : Option Classifier) (domain : Text) :
    (Router.of rows rules global).suffixRule? domain =
      rows.find? fun row => decide (row.Claims domain) := by
  have hclaims : ∀ row : SuffixRule,
      ((!row.canonical.isEmpty) = true ∧ row.canonical.isSuffixOf domain = true) ↔
        row.Claims domain := by
    simp [SuffixRule.claims_iff]
  rw [suffixRule?, of, List.find?_filter]
  simp only [hclaims]

/-- Rules that do not block are asked in vain. -/
theorem askGroups_append {domain : Text} {before : List (Text × Classifier)}
    (h : ∀ p ∈ before, p.2 domain ≠ some true) (rest : List (Text × Classifier)) :
    askGroups domain (before ++ rest) =
      ((askGroups domain rest).1, askedOf before ++ (askGroups domain rest).2) := by
  induction before with
  | nil => rfl
  | cons p before ih =>
    obtain ⟨hp, hbefore⟩ := List.forall_mem_cons.1 h
    rw [List.cons_append, askGroups, if_neg hp, ih hbefore]
    rfl

theorem askGroups_of_forall {domain : Text} (h : ∀ p ∈ rules, p.2 domain ≠ some true) :
    askGroups domain rules = (none, askedOf rules) := by
  have happend := askGroups_append h []
  rwa [List.append_nil, askGroups, List.append_nil] at happend

/-! ## The decision -/

theorem consult_of_rows {domain : Text} (h : ∀ row ∈ rows, ¬ row.Claims (Domain.canonical domain)) :
    (Router.of rows rules global).consult domain =
      match askGroups (Domain.canonical domain) rules with
      | (some group, asked) => (⟨group, .rules⟩, asked)
      | (none, asked) =>
        ((askGlobal (Domain.canonical domain) global).1,
          asked ++ (askGlobal (Domain.canonical domain) global).2) := by
  have hnone : (Router.of rows rules global).suffixRule? (Domain.canonical domain) = none := by
    rw [suffixRule?_of, List.find?_eq_none]
    simpa using h
  simp only [consult, hnone]
  rfl

theorem consult_of_precedes {domain : Text} {d : Decision} {log : List Consulted}
    (h : Precedes rows rules global (Domain.canonical domain) d log) :
    (Router.of rows rules global).consult domain = (d, log) := by
  cases h with
  | @row before after row hrows hbefore h =>
    have hrow : (Router.of rows rules global).suffixRule? (Domain.canonical domain) = some row := by
      rw [suffixRule?_of, List.find?_eq_some_iff_append]
      exact ⟨decide_eq_true h, before, after, hrows, by simpa using hbefore⟩
    simp only [consult, hrow]
  | rules hrows hrules hbefore h =>
    rw [consult_of_rows hrows, hrules, askGroups_append hbefore, askGroups, if_pos h]
  | listed hrows hrules hglobal blocked h =>
    rw [consult_of_rows hrows, askGroups_of_forall hrules, hglobal]
    cases blocked <;> simp [askGlobal, h]
  | unlisted hrows hrules hglobal h =>
    rw [consult_of_rows hrows, askGroups_of_forall hrules, hglobal]
    simp [askGlobal, h]
  | alone hrows hrules hglobal =>
    rw [consult_of_rows hrows, askGroups_of_forall hrules, hglobal]
    simp [askGlobal]

/-- There is always a decision. -/
theorem exists_precedes (rows : List SuffixRule) (rules : List (Text × Classifier))
    (global : Option Classifier) (domain : Text) :
    ∃ d log, Precedes rows rules global domain d log := by
  cases hrow : rows.find? fun row => decide (row.Claims domain) with
  | some row =>
    obtain ⟨h, before, after, hrows, hbefore⟩ := List.find?_eq_some_iff_append.1 hrow
    exact ⟨_, _, .row hrows (by simpa using hbefore) (of_decide_eq_true h)⟩
  | none =>
    have hrows : ∀ row ∈ rows, ¬ row.Claims domain := by simpa using hrow
    cases hrule : rules.find? fun p => p.2 domain == some true with
    | some p =>
      obtain ⟨h, before, after, hrules, hbefore⟩ := List.find?_eq_some_iff_append.1 hrule
      exact ⟨_, _, .rules hrows hrules (by simpa using hbefore) (by simpa using h)⟩
    | none =>
      have hrules : ∀ p ∈ rules, p.2 domain ≠ some true := by simpa using hrule
      cases hglobal : global with
      | none => exact ⟨_, _, .alone hrows hrules rfl⟩
      | some classifier =>
        cases h : classifier domain with
        | none => exact ⟨_, _, .unlisted hrows hrules rfl h⟩
        | some blocked => exact ⟨_, _, .listed hrows hrules rfl blocked h⟩

theorem precedes_iff {domain : Text} {d : Decision} {log : List Consulted} :
    (Router.of rows rules global).consult domain = (d, log) ↔
      Precedes rows rules global (Domain.canonical domain) d log := by
  refine ⟨fun h => ?_, consult_of_precedes⟩
  obtain ⟨d', log', h'⟩ := exists_precedes rows rules global (Domain.canonical domain)
  rw [consult_of_precedes h'] at h
  cases h
  exact h'

/-! ## What decisions depend on -/

/-- Two classifiers of one group that a domain cannot tell apart. -/
def SameFor (domain : Text) (p q : Text × Classifier) : Prop :=
  p.1 = q.1 ∧ p.2 domain = q.2 domain

theorem askGroups_congr {domain : Text} {rules' : List (Text × Classifier)}
    (h : List.Forall₂ (SameFor domain) rules rules') :
    askGroups domain rules = askGroups domain rules' := by
  induction h with
  | nil => rfl
  | cons hp hrest ih =>
    obtain ⟨hname, hanswer⟩ := hp
    simp only [askGroups, hname, hanswer, ih]

theorem askGlobal_congr {domain : Text} {global' : Option Classifier}
    (h : global.map (· domain) = global'.map (· domain)) :
    askGlobal domain global = askGlobal domain global' := by
  cases global <;> cases global' <;> simp_all [askGlobal]

/-- Rules that do not block might as well be absent. -/
theorem askGroups_without {domain : Text} {p : Text × Classifier} (hp : p.2 domain ≠ some true)
    (before after : List (Text × Classifier)) :
    (askGroups domain (before ++ p :: after)).1 = (askGroups domain (before ++ after)).1 := by
  induction before with
  | nil =>
    rw [List.nil_append, askGroups, if_neg hp]
    rfl
  | cons q before ih =>
    rw [List.cons_append, List.cons_append, askGroups, askGroups]
    split
    · rfl
    · exact ih

theorem resolve_congr {r r' : Router} {domain : Text}
    (hrow : r.suffixRule? (Domain.canonical domain) = r'.suffixRule? (Domain.canonical domain))
    (hgroups : (askGroups (Domain.canonical domain) r.groupRules).1 =
      (askGroups (Domain.canonical domain) r'.groupRules).1)
    (hglobal : r.global = r'.global) : r.resolve domain = r'.resolve domain := by
  simp only [resolve, consult, hrow, hglobal]
  generalize askGroups (Domain.canonical domain) r.groupRules = x at hgroups ⊢
  generalize askGroups (Domain.canonical domain) r'.groupRules = y at hgroups ⊢
  obtain ⟨found, asked⟩ := x
  obtain ⟨found', asked'⟩ := y
  change found = found' at hgroups
  subst hgroups
  cases r'.suffixRule? (Domain.canonical domain) <;> cases found <;> rfl

/-- The router decides on a domain by precedence and asks nobody out of turn.  It asks classifiers
about the canonical domain only, rules of a group that do not block have no say in the decision, and
neither letter case nor dots at the end of a domain make a difference. -/
theorem consult_precedence (rows : List SuffixRule) (rules : List (Text × Classifier))
    (global : Option Classifier) (domain : Text) :
    let r := Router.of rows rules global
    ∃ name, (∀ other, Domain.Canonical domain other ↔ other = name) ∧
      (∀ d log, (r.resolve domain = d ∧ (r.consult domain).2 = log) ↔
        Precedes rows rules global name d log) ∧
      (∀ rules' global', List.Forall₂ (SameFor name) rules rules' →
        global.map (· name) = global'.map (· name) →
        (Router.of rows rules' global').consult domain = r.consult domain) ∧
      (∀ before p after, rules = before ++ p :: after → p.2 name ≠ some true →
        (Router.of rows (before ++ after) global).resolve domain = r.resolve domain) ∧
      ∀ other m n, Text.lower other = Text.lower domain →
        r.consult (other ++ List.replicate m '.') = r.consult (domain ++ List.replicate n '.') := by
  intro r
  refine ⟨Domain.canonical domain, fun other => Domain.canonical_iff.trans eq_comm,
    fun d log => ?_, fun rules' global' hrules hglobal => ?_, fun before p after hsplit hp => ?_,
    fun other m n hcase => ?_⟩
  · rw [← precedes_iff, Prod.ext_iff]
    rfl
  · have hrow : (Router.of rows rules' global').suffixRule? (Domain.canonical domain) =
        r.suffixRule? (Domain.canonical domain) := rfl
    have hgroups : askGroups (Domain.canonical domain) (Router.of rows rules' global').groupRules =
        askGroups (Domain.canonical domain) r.groupRules := (askGroups_congr hrules).symm
    have hlist : askGlobal (Domain.canonical domain) (Router.of rows rules' global').global =
        askGlobal (Domain.canonical domain) r.global := (askGlobal_congr hglobal).symm
    simp only [consult, hrow, hgroups, hlist]
  · have hgroups := askGroups_without hp before after
    rw [← hsplit] at hgroups
    apply resolve_congr
    · rfl
    · exact hgroups.symm
    · rfl
  · have hcanonical : ∀ (t : Text) k, Domain.canonical (t ++ List.replicate k '.') =
        Domain.canonical t := by
      intro t k
      rw [Domain.canonical, Domain.stripDots_append (fun c hc => List.eq_of_mem_replicate hc)]
      rfl
    have hconsult : ∀ t k, r.consult (t ++ List.replicate k '.') = r.consult t := by
      intro t k
      rw [consult, hcanonical]
      rfl
    rw [hconsult, hconsult, ← r.consult_lower, hcase, r.consult_lower]

/-- A row for `work` claims names below `corp`.  The rules of `work` exempt all other names, and
those of `dirty` decide after them. -/
theorem consult_precedence_exempt :
    let work : Text × Classifier := ("work".toList, fun _ => some false)
    let dirty : Text × Classifier := (dirtyGroup, fun _ => some true)
    let rows : List SuffixRule := [⟨".Corp.".toList, "work".toList⟩]
    let r := Router.of rows [work, dirty] (some fun _ => some false)
    (r.resolve "Mail.CORP..".toList = ⟨"work".toList, .suffix ".Corp.".toList⟩ ∧
      (r.consult "Mail.CORP..".toList).2 = []) ∧
    r.resolve "A.example.".toList = ⟨dirtyGroup, .rules⟩ ∧
      (r.consult "A.example.".toList).2 = [.group "work".toList, .group dirtyGroup] ∧
      (Router.of rows [dirty] (some fun _ => some false)).resolve "A.example.".toList =
        ⟨dirtyGroup, .rules⟩ := by
  intro work dirty rows r
  have hmail : Domain.Canonical "Mail.CORP..".toList "mail.corp".toList :=
    @Domain.Canonical.intro "Mail.CORP".toList "..".toList (by simp) (by decide)
  have hexample : Domain.Canonical "A.example.".toList "a.example".toList :=
    @Domain.Canonical.intro "A.example".toList ".".toList (by simp) (by decide)
  constructor
  · obtain ⟨name, hname, hdecides, -⟩ := consult_precedence rows [work, dirty]
      (some fun _ => some false) "Mail.CORP..".toList
    cases (hname _).1 hmail
    exact (hdecides _ _).2 (@Precedes.row _ _ _ _ [] [] _ rfl (by simp) (by decide))
  · obtain ⟨name, hname, hdecides, -, hwithout, -⟩ := consult_precedence rows [work, dirty]
      (some fun _ => some false) "A.example.".toList
    cases (hname _).1 hexample
    have hsplit : [work, dirty] = [work] ++ dirty :: [] := rfl
    obtain ⟨hresolve, hasked⟩ := (hdecides _ _).2
      (.rules (by decide) hsplit (by simp [work]) rfl)
    exact ⟨hresolve, hasked, (hwithout [] work [dirty] rfl (by simp [work])).trans hresolve⟩

end Router

end SplitDns
