import SplitDns.Proofs.Effects
import SplitDns.Proofs.Startup
import SplitDns.Proofs.TableKeys

/-!
# Where requests go

A router decides on a domain for one of four reasons (`Router.decides_resolve`), and behind each of
them stands a group.  When the settings are valid and the service started, that group is one of the
settings (`Service.backs_resolve`) and of the resolver (`Service.group?_resolve`), and `clean` and
`dirty` have a caller to ask (`Service.servers_ne_nil_of_started`).
-/

namespace SplitDns

/-! ## Decisions -/

namespace Router

/-- What a router may decide for a domain, with what the decision rests on. -/
inductive Decides (r : Router) (domain : Text) : Decision → Prop
  | suffix {row : SuffixRule} (h : row ∈ r.suffixes)
      (hends : row.canonical <:+ Domain.canonical domain) :
      Decides r domain ⟨row.group, .suffix row.suffix⟩
  | rules {name : Text} {classifier : Classifier} (h : (name, classifier) ∈ r.groupRules)
      (hblocked : classifier (Domain.canonical domain) = some true) :
      Decides r domain ⟨name, .rules⟩
  | listed {classifier : Classifier} (h : r.global = some classifier) (blocked : Bool)
      (hverdict : classifier (Domain.canonical domain) = some blocked) :
      Decides r domain ⟨if blocked then dirtyGroup else cleanGroup, .classifier⟩
  | unmatched : Decides r domain ⟨cleanGroup, .default⟩

theorem mem_of_askGroups {domain name : Text} {rules : List (Text × Classifier)}
    {asked : List Consulted} (h : askGroups domain rules = (some name, asked)) :
    ∃ classifier, (name, classifier) ∈ rules ∧ classifier domain = some true := by
  induction rules generalizing asked with
  | nil => cases h
  | cons p rest ih =>
    obtain ⟨group, classifier⟩ := p
    unfold askGroups at h
    by_cases hb : classifier domain = some true
    · rw [if_pos hb] at h
      cases h
      exact ⟨classifier, List.mem_cons_self .., hb⟩
    · rw [if_neg hb] at h
      obtain ⟨hname, -⟩ := Prod.mk.inj h
      obtain ⟨c, hc, hcb⟩ := @ih (askGroups domain rest).2 (by rw [← hname])
      exact ⟨c, List.mem_cons_of_mem _ hc, hcb⟩

theorem decides_askGlobal {r : Router} {domain : Text} :
    r.Decides domain (askGlobal (Domain.canonical domain) r.global).1 := by
  cases hlist : r.global with
  | none => exact .unmatched
  | some classifier =>
    unfold askGlobal
    cases hv : classifier (Domain.canonical domain) with
    | none => simpa [hv] using .unmatched
    | some blocked =>
      have h := Decides.listed hlist blocked hv
      cases blocked <;> simpa [hv] using h

theorem decides_resolve (r : Router) (domain : Text) : r.Decides domain (r.resolve domain) := by
  unfold resolve consult
  cases hrow : r.suffixRule? (Domain.canonical domain) with
  | some row =>
    have hends := List.find?_some hrow
    simpa [hrow] using .suffix (List.mem_of_find?_eq_some hrow) (by simpa using hends)
  | none =>
    rcases hasked : askGroups (Domain.canonical domain) r.groupRules with ⟨_ | name, asked⟩
    · simpa [hrow, hasked] using decides_askGlobal
    · obtain ⟨classifier, hmem, hblocked⟩ := mem_of_askGroups hasked
      simpa [hrow, hasked] using .rules hmem hblocked

end Router

/-! ## Groups by name -/

variable {σ : Type}

/-- Of a group that has servers at least one is called. -/
theorem Dispatched.ne_nil {timeout : Nat} {servers : List σ} {calls : List (σ × ServerReply)}
    {answer : Option Message} (h : Dispatched timeout servers calls answer) (hs : servers ≠ []) :
    calls ≠ [] := by
  cases h with
  | exhausted => exact absurd rfl hs
  | answered h => simp
  | failed h hrest => simp

namespace Resolver

/-- Of groups with different names the last with a name is also the first. -/
theorem getLast?_filter_name {groups : List (ServerGroup σ)} (h : (groups.map (·.name)).Nodup)
    (name : Text) :
    (groups.filter (·.name == name)).getLast? = groups.find? (·.name == name) := by
  induction groups with
  | nil => rfl
  | cons g rest ih =>
    obtain ⟨hnew, hrest⟩ := List.nodup_cons.1 h
    by_cases hg : g.name = name
    · have hnone : rest.filter (·.name == name) = [] := by
        rw [List.filter_eq_nil_iff]
        intro g' hg'
        have hne : g'.name ≠ g.name := fun he => hnew (List.mem_map.2 ⟨g', hg', he⟩)
        simpa [hg] using hne
      simp [hg, hnone]
    · simpa [hg] using ih hrest

/-- A request fails for want of a group only when its question is routed to none. -/
theorem Ended.of_groupNotFound {r : Resolver σ} {id : UInt16} {request : Message}
    {es : List (Event σ)} {name : String}
    (h : Ended r id request es (.error (.groupNotFound name))) : ∃ q, r.groupFor? q = none := by
  cases h with
  | refused h => cases h
  | unrouted h hg => exact ⟨_, hg⟩

end Resolver

namespace Service

theorem group?_of_started {host : Host} {s : Settings} {service : Service} (hkeyed : s.Keyed)
    (h : Started host s service) (name : Text) :
    service.resolver.group? name = (s.group? name).map fun g => (memberOf name g).group := by
  have hnames : (groupsOf s).map (·.name) = s.groups.map Prod.fst := by
    simp [groupsOf, membersOf, memberOf]
  rw [Resolver.group?, h.groups, Resolver.getLast?_filter_name (hnames ▸ hkeyed), find?_groupsOf]

/-- The groups `clean` and `dirty` have callers. -/
theorem servers_ne_nil_of_started {host : Host} {s : Settings} {service : Service}
    (hkeyed : s.Keyed) (h : Started host s service) {name : Text} {g : ServerGroup Caller}
    (hg : service.resolver.group? name = some g) (hname : g.name ∈ [cleanGroup, dirtyGroup]) :
    g.servers ≠ [] := by
  rw [group?_of_started hkeyed h, Option.map_eq_some_iff] at hg
  obtain ⟨settings, hsettings, rfl⟩ := hg
  obtain ⟨found, hfound, hcallers⟩ := usable_iff.1 h.usable name hname
  rw [hsettings] at hfound
  cases hfound
  exact hcallers

end Service

/-! ## Decisions of a service -/

/-- What in the settings a decision rests on. -/
inductive Settings.Backs (s : Settings) (domain : Text) : Decision → Prop
  | suffix {row : SuffixRule} (h : row ∈ s.suffixes)
      (hends : row.canonical <:+ Domain.canonical domain) (hgroup : (s.group? row.group).isSome) :
      Backs s domain ⟨row.group, .suffix row.suffix⟩
  | rules {name : Text} {g : GroupSettings} (h : (name, g) ∈ s.groups) (hrules : g.hasRules)
      (hblocked : (RuleList.ofLines g.rules).verdict? (Domain.canonical domain) = some true) :
      Backs s domain ⟨name, .rules⟩
  | listed (blocked : Bool)
      (hgroup : (s.group? (if blocked then dirtyGroup else cleanGroup)).isSome) :
      Backs s domain ⟨if blocked then dirtyGroup else cleanGroup, .classifier⟩
  | unmatched (hgroup : (s.group? cleanGroup).isSome) : Backs s domain ⟨cleanGroup, .default⟩

/-- A name that stands before something in a table is found in it. -/
theorem Settings.group?_isSome_of_mem {s : Settings} {name : Text} {g : GroupSettings}
    (h : (name, g) ∈ s.groups) : (s.group? name).isSome :=
  List.lookup_isSome_iff.2 ⟨(name, g), h, beq_self_eq_true name⟩

theorem Settings.Backs.group?_isSome {s : Settings} {domain : Text} {d : Decision}
    (h : s.Backs domain d) : (s.group? d.group).isSome := by
  cases h with
  | suffix h hends hgroup => exact hgroup
  | rules h hrules hblocked => exact group?_isSome_of_mem h
  | listed blocked hgroup => exact hgroup
  | unmatched hgroup => exact hgroup

namespace Service

variable {host : Host} {s : Settings} {service : Service}

/-- No row of the suffix table is dropped. -/
theorem suffixes_of_started (hs : s.Routable) (h : Started host s service) :
    service.resolver.router.suffixes = s.suffixes := by
  obtain ⟨list, -, hrouter⟩ := h.router
  rw [hrouter, Router.of, List.filter_eq_self]
  intro row hrow
  simpa using hs.suffixes row hrow

theorem mem_of_mem_groupRules {groups : List (Text × GroupSettings)} {name : Text}
    {classifier : Classifier} (h : (name, classifier) ∈ groupRules groups) :
    ∃ g, (name, g) ∈ groups ∧ g.hasRules ∧ classifier = (RuleList.ofLines g.rules).classifier := by
  obtain ⟨p, hp, heq⟩ := List.mem_map.1 h
  obtain ⟨hmem, hrules⟩ := List.mem_filter.1 hp
  cases heq
  exact ⟨p.2, hmem, hrules, rfl⟩

theorem backs_resolve (hs : s.Routable) (h : Started host s service) (domain : Text) :
    s.Backs domain (service.resolver.router.resolve domain) := by
  have hgroup : ∀ blocked : Bool,
      (s.group? (if blocked then dirtyGroup else cleanGroup)).isSome := by
    intro blocked
    obtain ⟨g, hg, -⟩ := hs.servers (if blocked then dirtyGroup else cleanGroup)
      (by cases blocked <;> simp)
    rw [hg]
    rfl
  have hrules : service.resolver.router.groupRules = groupRules s.groups := by
    obtain ⟨list, -, hrouter⟩ := h.router
    rw [hrouter, Router.of]
  -- The group of each of the four decisions is found in the settings.
  have hdecides := service.resolver.router.decides_resolve domain
  generalize service.resolver.router.resolve domain = d at hdecides ⊢
  cases hdecides with
  | suffix hrow hends =>
    rw [suffixes_of_started hs h] at hrow
    obtain ⟨g, hg⟩ := hs.groups _ hrow
    exact .suffix hrow hends (by rw [hg]; rfl)
  | rules hmem hblocked =>
    rw [hrules] at hmem
    obtain ⟨g, hg, hhas, rfl⟩ := mem_of_mem_groupRules hmem
    exact .rules hg hhas hblocked
  | listed hlist blocked hverdict => exact .listed blocked (hgroup blocked)
  | unmatched => exact .unmatched (hgroup false)

/-- The group of a decision is there. -/
theorem group?_resolve (hkeyed : s.Keyed) (hs : s.Routable) (h : Started host s service)
    (domain : Text) : ∃ g,
      service.resolver.group? (service.resolver.router.resolve domain).group = some g ∧
        g.name = (service.resolver.router.resolve domain).group := by
  obtain ⟨g, hg⟩ := Option.isSome_iff_exists.1 (backs_resolve hs h domain).group?_isSome
  exact ⟨_, by rw [group?_of_started hkeyed h, hg]; rfl, rfl⟩

theorem execute_ne_groupNotFound (hkeyed : s.Keyed) (hs : s.Routable) (h : Started host s service)
    (env : Surroundings Caller) (id : UInt16) (request : Message) (w : World Caller)
    (name : String) :
    (service.resolver.execute env id request w).1 ≠ .error (.groupNotFound name) := by
  intro hname
  obtain ⟨es, -, hended⟩ := Resolver.execute_ended service.resolver env id request w
  rw [hname] at hended
  obtain ⟨q, hq⟩ := hended.of_groupNotFound
  obtain ⟨g, hg, -⟩ := group?_resolve hkeyed hs h q.name.text
  rw [Resolver.groupFor?, hg] at hq
  cases hq

/-- After a miss a caller of `clean` or `dirty` is asked. -/
theorem asked_of_misses (hkeyed : s.Keyed) (h : Started host s service) {id : UInt16}
    {request : Message} {es : List (Event Caller)} {result : Except Failure Outcome}
    (hended : Resolver.Ended service.resolver id request es result) {q : Question}
    {g : ServerGroup Caller} (hmiss : Resolver.Misses service.resolver request es q g)
    (hname : g.name ∈ [cleanGroup, dirtyGroup]) :
    ∃ caller ∈ g.servers, ∃ reply, .asked caller (Message.queryFor q request id) reply ∈ es := by
  obtain ⟨calls, answer, tail, hes, hd, hprefix, -⟩ := hended.stored q g hmiss
  have hcalls := hd.ne_nil (servers_ne_nil_of_started hkeyed h hmiss.2.2 hname)
  obtain ⟨⟨caller, reply⟩, hcall⟩ := List.exists_mem_of_ne_nil calls hcalls
  refine ⟨caller, hprefix.subset (List.mem_map_of_mem hcall), reply, ?_⟩
  rw [hes]
  exact List.mem_append_left _ (Resolver.asked_mem_missed hcall)

/-- A program that loaded its settings and started on them fails no request for want of a group. -/
theorem execute_ne_groupNotFound_of_load {files : Files} {named : Option Text}
    {overrides : Settings.Overrides} (hload : Settings.loadValid files named overrides = .ok s)
    (hstart : (start host s).result = .ok service) (env : Surroundings Caller) (id : UInt16)
    (request : Message) (w : World Caller) (name : String) :
    (service.resolver.execute env id request w).1 ≠ .error (.groupNotFound name) := by
  obtain ⟨hkeyed, hvalid⟩ := Settings.keyed_of_loadValid hload
  exact execute_ne_groupNotFound hkeyed (Settings.routable_of_valid hvalid) (started hstart) env id
    request w name

/-- A service that started from valid settings keeps all rows of the suffix table, routes every
domain to a group that the settings name and the resolver has, and so never fails for want of a
group; and a request for `clean` or `dirty` that the cache has nothing for is sent to a caller. -/
theorem routes_to_configured_group (hkeyed : s.Keyed) (hvalid : s.fault? = none)
    (hstart : (start host s).result = .ok service) :
    service.resolver.router.suffixes = s.suffixes ∧
    (∀ domain, s.Backs domain (service.resolver.router.resolve domain) ∧
      ∃ g, service.resolver.group? (service.resolver.router.resolve domain).group = some g ∧
        g.name = (service.resolver.router.resolve domain).group) ∧
    ∀ (env : Surroundings Caller) (id : UInt16) (request : Message) (w : World Caller),
      (∀ name, (service.resolver.execute env id request w).1 ≠ .error (.groupNotFound name)) ∧
      ∃ es, w.Leads env es (service.resolver.execute env id request w).2 ∧
        ∀ q g, Resolver.Misses service.resolver request es q g →
          g.name ∈ [cleanGroup, dirtyGroup] →
          ∃ caller ∈ g.servers, ∃ reply,
            .asked caller (Message.queryFor q request id) reply ∈ es := by
  have hs := Settings.routable_of_valid hvalid
  have h := started hstart
  -- Servers and the world before a request may be any; only the groups are those of the settings.
  refine ⟨suffixes_of_started hs h,
    fun domain => ⟨backs_resolve hs h domain, group?_resolve hkeyed hs h domain⟩,
    fun env id request w => ⟨execute_ne_groupNotFound hkeyed hs h env id request w, ?_⟩⟩
  obtain ⟨es, hleads, hended⟩ := Resolver.execute_ended service.resolver env id request w
  exact ⟨es, hleads, fun q g hmiss hname => asked_of_misses hkeyed h hended hmiss hname⟩

theorem routes_to_configured_group_small : Settings.small.Keyed ∧ Settings.small.fault? = none ∧
    ∃ service, (start Host.bare .small).result = .ok service ∧
      service.resolver.router.suffixes = Settings.small.suffixes ∧
      ∀ domain, ∃ g,
        service.resolver.group? (service.resolver.router.resolve domain).group = some g := by
  have hkeyed : Settings.small.Keyed := by
    unfold Settings.Keyed
    decide
  obtain ⟨service, hstart⟩ := start_small
  obtain ⟨hsuffixes, hroutes, -⟩ :=
    routes_to_configured_group hkeyed Settings.small_valid hstart
  refine ⟨hkeyed, Settings.small_valid, service, hstart, hsuffixes, fun domain => ?_⟩
  obtain ⟨-, g, hg, -⟩ := hroutes domain
  exact ⟨g, hg⟩

end Service

end SplitDns
