import SplitDns.Rule.List

/-!
# Routing

A router maps a domain to the name of the server group that is to answer it: by a table of
suffixes, then by the rules of the groups, then by a global rule list, and else to `clean`. The
classifiers it consults are functions of the canonical domain.
-/

namespace SplitDns

/-- Whether a domain is blocked; nothing when no rule applies. -/
abbrev Classifier := Text → Option Bool

def RuleList.classifier (l : RuleList) : Classifier :=
  l.verdict?

/-- The group of domains that no rule blocks. -/
def cleanGroup : Text :=
  "clean".toList

/-- The group of blocked domains. -/
def dirtyGroup : Text :=
  "dirty".toList

structure SuffixRule where
  suffix : Text
  group : Text
  deriving DecidableEq, Repr, Inhabited

def SuffixRule.canonical (r : SuffixRule) : Text :=
  Domain.canonical r.suffix

/-- Why a domain goes to its group. -/
inductive Reason where
  | suffix (suffix : Text)
  | rules
  | classifier
  | default
  deriving DecidableEq, Repr, Inhabited

def Reason.text : Reason → Text
  | suffix s => "suffix ".toList ++ s
  | rules => "rules".toList
  | classifier => "classifier".toList
  | default => "default".toList

structure Decision where
  group : Text
  reason : Reason
  deriving DecidableEq, Repr, Inhabited

/-- How a decision reads in logs. -/
def decisionText (group reason : Text) : Text :=
  "group '".toList ++ group ++ "' (".toList ++ reason ++ [')']

def Decision.text (d : Decision) : Text :=
  decisionText d.group d.reason.text

/-- Who is consulted: the rules of a group, or the global list. -/
inductive Consulted where
  | group (name : Text)
  | global
  deriving DecidableEq, Repr, Inhabited

structure Router where
  /-- Rows whose suffix is not empty in canonical form. -/
  suffixes : List SuffixRule
  groupRules : List (Text × Classifier)
  global : Option Classifier

namespace Router

/-- Rows with an empty suffix are dropped. -/
def of (suffixes : List SuffixRule) (groupRules : List (Text × Classifier))
    (global : Option Classifier) : Router :=
  ⟨suffixes.filter (!·.canonical.isEmpty), groupRules, global⟩

/-- The first row whose suffix ends a canonical domain. -/
def suffixRule? (r : Router) (domain : Text) : Option SuffixRule :=
  r.suffixes.find? (·.canonical.isSuffixOf domain)

/-- The group whose rules are the first to block a canonical domain, and who was asked till then. -/
def askGroups (domain : Text) : List (Text × Classifier) → Option Text × List Consulted
  | [] => (none, [])
  | (group, classifier) :: rest =>
    if classifier domain = some true then (some group, [.group group])
    else
      let (found, asked) := askGroups domain rest
      (found, .group group :: asked)

def askGlobal (domain : Text) : Option Classifier → Decision × List Consulted
  | none => (⟨cleanGroup, .default⟩, [])
  | some classifier =>
    match classifier domain with
    | some true => (⟨dirtyGroup, .classifier⟩, [.global])
    | some false => (⟨cleanGroup, .classifier⟩, [.global])
    | none => (⟨cleanGroup, .default⟩, [.global])

/-- The decision on a domain, and who was consulted for it, in order. -/
def consult (r : Router) (domain : Text) : Decision × List Consulted :=
  let domain := Domain.canonical domain
  match r.suffixRule? domain with
  | some row => (⟨row.group, .suffix row.suffix⟩, [])
  | none =>
    match askGroups domain r.groupRules with
    | (some group, asked) => (⟨group, .rules⟩, asked)
    | (none, asked) =>
      let (decision, more) := askGlobal domain r.global
      (decision, asked ++ more)

def resolve (r : Router) (domain : Text) : Decision :=
  (r.consult domain).1

end Router

end SplitDns
