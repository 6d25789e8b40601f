import SplitDns.Service.Assembly

/-!
# What starting gives

Starting is a chain of steps of which few can fail.  Group rules, hosts and callers are made of any
settings (`Service.startGroupRules_result`, `Service.startHosts_result`,
`Service.startCallers_result`), so a service that started is made of its settings in one way
(`Service.started`), and when the rule list and the kernel sets are there, only groups `clean` or
`dirty` without callers keep it from starting (`Service.start_result`, `Service.usable_iff`).
-/

namespace SplitDns

/-! ## Valid settings -/

/-- What the check of settings makes sure of, beyond single values. -/
structure Settings.Routable (s : Settings) : Prop where
  servers : ∀ name ∈ [cleanGroup, dirtyGroup], ∃ g, s.group? name = some g ∧ g.validEndpoints ≠ []
  suffixes : ∀ row ∈ s.suffixes, row.canonical ≠ []
  groups : ∀ row ∈ s.suffixes, ∃ g, s.group? row.group = some g

theorem Settings.suffixFault?_eq_none_iff {s : Settings} {row : SuffixRule} :
    s.suffixFault? row = none ↔ row.canonical ≠ [] ∧ ∃ g, s.group? row.group = some g := by
  unfold suffixFault?
  cases row.canonical <;> cases s.group? row.group <;> simp

theorem Settings.routable_of_valid {s : Settings} (h : s.fault? = none) : s.Routable := by
  unfold fault? at h
  split at h
  · cases h
  split at h
  · cases h
  split at h
  · cases h
  obtain ⟨hservers, hrows⟩ := Option.or_eq_none_iff.1 h
  rw [Option.map_eq_none_iff, List.find?_eq_none] at hservers
  rw [List.findSome?_eq_none_iff] at hrows
  refine ⟨fun name hname => ?_, fun row hrow => ?_, fun row hrow => ?_⟩
  · have hserver : s.hasServer name = true := by simpa using hservers name hname
    obtain ⟨g, hg, hne⟩ := (Option.any_eq_true _ _).1 hserver
    exact ⟨g, hg, by simpa using hne⟩
  · exact (suffixFault?_eq_none_iff.1 (hrows row hrow)).1
  · exact (suffixFault?_eq_none_iff.1 (hrows row hrow)).2

/-! ## Chains of steps -/

namespace Start

variable {α β : Type}

@[simp] theorem result_pure (a : α) : (Pure.pure a : Start α).result = .ok a := rfl

@[simp] theorem result_say (level : LogLevel) (message : String) :
    (say level message).result = .ok () := rfl

@[simp] theorem result_fail (context : String) (cause : Failure) :
    (fail context cause : Start α).result = .error ⟨context, cause⟩ := rfl

@[simp] theorem result_command (host : Host) (arguments : List Text) :
    (command host arguments).result = .ok (host.ipset arguments) := rfl

/-- A chain gives what its first step makes of the rest. -/
@[simp] theorem result_bind (x : Start α) (f : α → Start β) :
    (x >>= f).result = x.result.bind fun a => (f a).result := by
  change (Start.bind x f).result = _
  unfold Start.bind
  cases x.result <;> rfl

/-- What a chain gives comes of something that its first step gives. -/
theorem bind_eq_ok {x : Except StartFailure α} {f : α → Except StartFailure β} {b : β} :
    x.bind f = .ok b ↔ ∃ a, x = .ok a ∧ f a = .ok b := by
  unfold Except.bind
  cases x <;> simp

end Start

namespace Service

/-! ## Steps that do not fail -/

theorem sayTimes_result (level : LogLevel) (message : String) (n : Nat) :
    (sayTimes level message n).result = .ok () := by
  induction n with
  | zero => rfl
  | succ n ih => simp [sayTimes, ih, Except.bind]

/-- The rules of the groups that have some. -/
def groupRules (groups : List (Text × GroupSettings)) : List (Text × Classifier) :=
  (groups.filter (·.2.hasRules)).map fun p => (p.1, (RuleList.ofLines p.2.rules).classifier)

theorem startGroupRules_result (groups : List (Text × GroupSettings)) :
    (startGroupRules groups).result = .ok (groupRules groups) := by
  induction groups with
  | nil => rfl
  | cons p rest ih =>
    obtain ⟨name, g⟩ := p
    unfold startGroupRules
    by_cases h : g.hasRules = true
    · simp [h, ih, groupRules, Except.bind]
    · simp [h, ih, groupRules]

theorem startHostsFiles_result (host : Host) (paths : List Text) :
    ∃ sources, (startHostsFiles host paths).result = .ok sources := by
  induction paths with
  | nil => exact ⟨_, rfl⟩
  | cons path rest ih =>
    obtain ⟨sources, h⟩ := ih
    unfold startHostsFiles
    cases HostsTable.load host.files path with
    | error e => exact ⟨sources, by simp [h, Except.bind]⟩
    | ok table => exact ⟨table.source :: sources, by simp [h, sayTimes_result, Except.bind]⟩

theorem startHosts_result (host : Host) (s : Settings) :
    ∃ sources, (startHosts host s).result = .ok sources := by
  obtain ⟨files, h⟩ := startHostsFiles_result host s.hostsFiles
  exact ⟨_, by simp [startHosts, h, sayTimes_result, Except.bind]; rfl⟩

/-- The callers of a group: those of its valid endpoints that can be called. -/
def callersOf (g : GroupSettings) : List Caller :=
  g.validEndpoints.filterMap fun e => (Caller.of e g.socks5).toOption

theorem startCallers_result (proxy : Option Text) (es : List (Except EndpointFault Endpoint)) :
    (startCallers proxy es).result =
      .ok ((es.filterMap Except.toOption).filterMap fun e => (Caller.of e proxy).toOption) := by
  induction es with
  | nil => rfl
  | cons e rest ih =>
    cases e with
    | error fault => exact ih
    | ok endpoint =>
      have hvalid : (Except.ok endpoint :: rest).filterMap Except.toOption =
        endpoint :: rest.filterMap Except.toOption := rfl
      rw [hvalid, List.filterMap_cons]
      simp only [startCallers]
      cases Caller.of endpoint proxy with
      | error e => exact ih
      | ok caller =>
        simp only [Start.result_bind, ih]
        rfl

/-! ## Groups -/

/-- The address set of a group that is kept in memory. -/
def memoryOf (g : GroupSettings) : Option MemorySet :=
  match g.backend with
  | .kernel => none
  | .memory => g.ipset.map fun name => .empty name (g.setTtl.map UInt32.toNat)

/-- What becomes of the settings of a group. -/
def memberOf (name : Text) (g : GroupSettings) : Member :=
  ⟨⟨name, callersOf g, g.ipset.map (⟨·, g.ipsetTtl⟩)⟩, g.backend, memoryOf g⟩

def membersOf (groups : List (Text × GroupSettings)) : List Member :=
  groups.map fun p => memberOf p.1 p.2

/-- Whether the kernel set of a group, when it has one, can be made. -/
def SetReady (host : Host) (g : GroupSettings) : Prop :=
  g.backend = .kernel → ∀ name, g.ipset = some name →
    host.ipset (KernelSet.createArguments name) = .done

theorem startKernelSet_eq_ok {host : Host} {name : Text} {u : Unit} :
    (startKernelSet host name).result = .ok u ↔
      host.ipset (KernelSet.createArguments name) = .done := by
  cases h : host.ipset (KernelSet.createArguments name) <;>
    simp [startKernelSet, h, Except.bind, KernelSet.createFailure?, KernelSet.failure?]

theorem startGroup_eq_ok {host : Host} {name : Text} {g : GroupSettings} {m : Member} :
    (startGroup host name g).result = .ok m ↔ SetReady host g ∧ memberOf name g = m := by
  have hcallers : (startCallers g.socks5 g.endpoints).result = .ok (callersOf g) :=
    startCallers_result g.socks5 g.endpoints
  unfold startGroup SetReady memberOf memoryOf
  rw [Start.result_bind, hcallers]
  cases hset : g.ipset with
  | none => cases hb : g.backend <;> simp [Except.bind]
  | some set =>
    cases hb : g.backend with
    | kernel => simp [startSet, hb, Start.bind_eq_ok, startKernelSet_eq_ok, and_assoc]
    | memory => simp [startSet, hb, Except.bind]

theorem startGroups_eq_ok {host : Host} {groups : List (Text × GroupSettings)}
    {members : List Member} : (startGroups host groups).result = .ok members ↔
      (∀ p ∈ groups, SetReady host p.2) ∧ membersOf groups = members := by
  induction groups generalizing members with
  | nil => simp [startGroups, membersOf]
  | cons p rest ih =>
    obtain ⟨name, g⟩ := p
    simp [startGroups, membersOf, Start.bind_eq_ok, startGroup_eq_ok, ih, and_assoc]

/-! ## The service -/

/-- The groups that a resolver gets. -/
def groupsOf (s : Settings) : List (ServerGroup Caller) :=
  (membersOf s.groups).map (·.group)

/-- What a service that started is made of. -/
structure Started (host : Host) (s : Settings) (service : Service) : Prop where
  router : ∃ list, (startRuleList host s).result = .ok list ∧
    service.resolver.router =
      Router.of s.suffixes (groupRules s.groups) (list.map RuleList.classifier)
  members : service.members = membersOf s.groups
  groups : service.resolver.groups = groupsOf s
  usable : ServerGroup.fault? (groupsOf s) = none
  sets : ∀ p ∈ s.groups, SetReady host p.2
  timeout : service.resolver.timeout = s.queryTimeout
  cache : service.cache = Cache.empty s.cache.normal

theorem startRouter_eq_ok {host : Host} {s : Settings} {router : Router} :
    (startRouter host s).result = .ok router ↔
      ∃ list, (startRuleList host s).result = .ok list ∧
        Router.of s.suffixes (groupRules s.groups) (list.map RuleList.classifier) = router := by
  simp [startRouter, Start.bind_eq_ok, startGroupRules_result]

/-- The steps of starting up to the check of the groups. -/
theorem start_result {host : Host} {s : Settings} {list : Option RuleList}
    (hlist : (startRuleList host s).result = .ok list)
    (hsets : ∀ p ∈ s.groups, SetReady host p.2) :
    ∃ hosts, (start host s).result =
      match ServerGroup.fault? (groupsOf s) with
      | some e => .error ⟨"Upstream groups are not usable", e⟩
      | none => .ok ⟨⟨Router.of s.suffixes (groupRules s.groups) (list.map RuleList.classifier),
          groupsOf s, hosts, s.queryTimeout⟩, Cache.empty s.cache.normal, membersOf s.groups⟩ := by
  obtain ⟨hosts, hhosts⟩ := startHosts_result host s
  have hrouter := startRouter_eq_ok.2 ⟨list, hlist, rfl⟩
  have hmembers := startGroups_eq_ok.2 ⟨hsets, rfl⟩
  refine ⟨hosts, ?_⟩
  simp only [start, Start.result_bind, Start.result_say, hrouter, hhosts, hmembers, Except.bind]
  unfold groupsOf
  cases ServerGroup.fault? ((membersOf s.groups).map (·.group)) with
  | none => rfl
  | some e => rfl

theorem started {host : Host} {s : Settings} {service : Service}
    (h : (start host s).result = .ok service) : Started host s service := by
  have hchain := h
  simp only [start, Start.result_bind, Start.result_say, Start.bind_eq_ok] at hchain
  obtain ⟨-, -, router, hrouter, hosts, -, members, hmembers, -⟩ := hchain
  obtain ⟨list, hlist, -⟩ := startRouter_eq_ok.1 hrouter
  obtain ⟨hsets, -⟩ := startGroups_eq_ok.1 hmembers
  obtain ⟨hosts, hstart⟩ := start_result hlist hsets
  rw [hstart] at h
  cases husable : ServerGroup.fault? (groupsOf s) with
  | some e => simp [husable] at h
  | none =>
    simp only [husable] at h
    cases h
    exact ⟨⟨list, hlist, rfl⟩, rfl, rfl, husable, hsets, rfl, rfl⟩

/-- A rule list that is named and can be loaded is there. -/
theorem startRuleList_of_loads {host : Host} {s : Settings}
    (h : ∀ path, s.ruleList = some path →
      ∃ list, RuleList.load host.files path s.ruleListBase64 = .ok list) :
    ∃ list, (startRuleList host s).result = .ok list := by
  unfold startRuleList
  cases hpath : s.ruleList with
  | none => exact ⟨none, rfl⟩
  | some path =>
    obtain ⟨list, hlist⟩ := h path hpath
    exact ⟨some list, by simp [hlist, Except.bind]⟩

end Service

/-! ## Groups that can be used -/

theorem ServerGroup.fault?_eq_none_iff {σ : Type} {groups : List (ServerGroup σ)} :
    fault? groups = none ↔ ∀ name ∈ [cleanGroup, dirtyGroup],
      ∃ g, groups.find? (·.name == name) = some g ∧ g.servers ≠ [] := by
  unfold fault?
  rw [List.findSome?_eq_none_iff]
  refine forall₂_congr fun name _ => ?_
  cases groups.find? (·.name == name) with
  | none => simp
  | some g => simp

namespace Service

theorem find?_groupsOf (s : Settings) (name : Text) :
    (groupsOf s).find? (·.name == name) = (s.group? name).map fun g => (memberOf name g).group := by
  unfold groupsOf membersOf Settings.group?
  induction s.groups with
  | nil => rfl
  | cons p rest ih =>
    obtain ⟨n, g⟩ := p
    by_cases h : n = name
    · subst h
      simp [memberOf]
    · have h' : (name == n) = false := by simpa using Ne.symm h
      simpa [memberOf, List.lookup_cons, h, h'] using ih

/-- Groups can be used when `clean` and `dirty` are there and have a caller. -/
theorem usable_iff {s : Settings} : ServerGroup.fault? (groupsOf s) = none ↔
    ∀ name ∈ [cleanGroup, dirtyGroup], ∃ g, s.group? name = some g ∧ callersOf g ≠ [] := by
  rw [ServerGroup.fault?_eq_none_iff]
  refine forall₂_congr fun name _ => ?_
  rw [find?_groupsOf]
  cases s.group? name with
  | none => simp
  | some g => simp [memberOf]

end Service

/-! ## A small host and its settings -/

/-- A host without files, network and command for kernel sets. -/
def Host.bare : Host :=
  ⟨fun _ => none, fun _ => .missing, .unreachable, fun _ => none⟩

/-- Settings with local names in a group of their own. -/
def Settings.small : Settings :=
  { standard with
    suffixes := [⟨".lan".toList, "home".toList⟩]
    groups :=
      [(cleanGroup, { GroupSettings.standard with dns := ["1.1.1.1:53".toList] }),
       (dirtyGroup, { GroupSettings.standard with dns := ["8.8.8.8:53/tcp".toList] }),
       ("home".toList, { GroupSettings.standard with dns := ["10.0.0.1:53".toList] })] }

theorem Settings.small_valid : small.fault? = none := by
  decide

/-- The bare host starts the service with the small settings. -/
theorem Service.start_small : ∃ service, (start Host.bare .small).result = .ok service := by
  have hsets : ∀ p ∈ Settings.small.groups, SetReady Host.bare p.2 := by
    simp [Settings.small, SetReady, GroupSettings.standard]
  have hlist : (startRuleList Host.bare .small).result = .ok none := rfl
  obtain ⟨hosts, h⟩ := start_result hlist hsets
  have husable : ServerGroup.fault? (groupsOf .small) = none := by decide
  rw [husable] at h
  exact ⟨_, h⟩

end SplitDns
