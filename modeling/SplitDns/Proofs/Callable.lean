import SplitDns.Proofs.LetterCase
import SplitDns.Proofs.Pieces
import SplitDns.Proofs.Startup

/-!
# Endpoints that can be called

The names of TLS servers are checked twice, when an endpoint is read and when a caller is made of
it, and not by the same rules: of the host names that are read, those that end in a number or are
too long with their closing dot make no caller (`ServerIdentity.isDnsName_iff`).  Proxies are
checked only then.  So a group of valid settings can be without callers, and it has one when one of
its endpoints passes both checks (`Service.callersOf_ne_nil_iff`).
-/

namespace SplitDns

/-! ## Texts of ASCII characters -/

theorem Utf8.size_eq_length {t : Text} (h : ∀ c ∈ t, c.toNat < 128) : Utf8.size t = t.length := by
  unfold Utf8.size Utf8.encode
  induction t with
  | nil => rfl
  | cons c t ih =>
    have hlt : c.val.toNat < 128 := h c (List.mem_cons_self ..)
    have hc : c.utf8Size = 1 := by
      rw [Char.utf8Size_eq_one_iff, UInt32.le_iff_toNat_le]
      exact Nat.le_of_lt_succ hlt
    rw [List.flatMap_cons, List.length_append, String.length_utf8EncodeChar, hc,
      ih fun d hd => h d (List.mem_cons_of_mem _ hd)]
    exact Nat.add_comm _ _

/-! ## Labels -/

theorem ServerName.ne_hyphen_of_isAlnum {c : Char} (h : isAlnum c = true) : c ≠ '-' := by
  rintro rfl
  revert h
  decide

/-- The characters of a label are letters, digits and hyphens. -/
theorem ServerName.lt_of_mem_label {l : Text} (h : isLabel l = true) {c : Char} (hc : c ∈ l) :
    c.toNat < 128 := by
  simp only [isLabel, Bool.and_eq_true, List.all_eq_true, Bool.or_eq_true, beq_iff_eq] at h
  obtain ⟨⟨⟨-, hchars⟩, -⟩, -⟩ := h
  rcases hchars c hc with h | rfl
  · exact Text.lt_of_isAlphanum h
  · decide

theorem ServerIdentity.isLabel_of_isLabel {l : Text} (h : ServerName.isLabel l = true) :
    isLabel l = true := by
  simp only [ServerName.isLabel, Bool.and_eq_true, List.all_eq_true, Bool.or_eq_true,
    beq_iff_eq, Option.any_eq_true] at h
  obtain ⟨⟨⟨hlength, hchars⟩, c, hc, hfirst⟩, d, hd, hlast⟩ := h
  simp only [isLabel, Bool.and_eq_true, List.all_eq_true, bne_iff_ne, ne_eq, hc, hd,
    Option.some.injEq]
  refine ⟨⟨⟨hlength, fun c hc => ?_⟩, ServerName.ne_hyphen_of_isAlnum hfirst⟩,
    ServerName.ne_hyphen_of_isAlnum hlast⟩
  rcases hchars c hc with h | rfl
  · simp [isNameChar, show c.isAlphanum = true from h]
  · decide

/-! ## Names -/

namespace ServerName

/-- The parts of a name, without what follows a closing dot. -/
def labels (t : Text) : List Text :=
  Text.split (· == '.') ((Text.before? ['.'] t).getD t)

/-- Whether a host name stays one for a TLS server: its closing dot counts, and its last label is
not a number. -/
def Provable (t : Text) : Prop :=
  t.length ≤ 253 ∧ ∀ label, (labels t).getLast? = some label → label.all Char.isDigit = false

theorem lt_of_mem_hostname {t : Text} (h : isHostname t = true) {c : Char} (hc : c ∈ t) :
    c.toNat < 128 := by
  have hlabels : ∀ l ∈ labels t, isLabel l = true := by
    simp only [isHostname, Bool.and_eq_true, List.all_eq_true] at h
    exact h.2
  have hbody : ∀ d ∈ (Text.before? ['.'] t).getD t, d.toNat < 128 := by
    intro d hd
    obtain hdot | ⟨label, hlabel, hmem⟩ := Text.mem_split (p := (· == '.')) hd
    · rw [beq_iff_eq.1 hdot]
      decide
    · exact lt_of_mem_label (hlabels label hlabel) hmem
  cases hb : Text.before? ['.'] t with
  | none =>
    rw [hb] at hbody
    exact hbody c hc
  | some body =>
    rw [hb] at hbody
    rw [Text.eq_append_of_before? hb] at hc
    rcases List.mem_append.1 hc with hc | hc
    · exact hbody c hc
    · rw [List.mem_singleton.1 hc]
      decide

end ServerName

/-- Of the host names that are read, those are DNS names of servers that stay provable. -/
theorem ServerIdentity.isDnsName_iff {t : Text} (h : ServerName.isHostname t = true) :
    isDnsName t = true ↔ ServerName.Provable t := by
  have hsize : Utf8.size t = t.length :=
    Utf8.size_eq_length fun c hc => ServerName.lt_of_mem_hostname h hc
  have hlabels : (ServerName.labels t).all isLabel = true := by
    simp only [ServerName.isHostname, Bool.and_eq_true, List.all_eq_true] at h
    exact List.all_eq_true.2 fun l hl => isLabel_of_isLabel (h.2 l hl)
  unfold isDnsName ServerName.Provable
  change (decide (Utf8.size t ≤ 253) && (ServerName.labels t).all isLabel &&
    !(ServerName.labels t).getLast?.any (·.all Char.isDigit)) = true ↔ _
  rw [hsize, hlabels]
  cases (ServerName.labels t).getLast? <;> simp

/-! ## Endpoints -/

namespace Endpoint

/-- Whether a caller can be made of an endpoint that was read: it needs a name that its server can
prove, and over HTTPS no proxy or one with a usable address. -/
def Callable (proxy : Option Text) : Endpoint → Prop
  | udp _ => True
  | tcp _ => True
  | tls _ name _ => (IpAddr.parse? name).isSome ∨ ServerName.Provable name
  | https _ => ∀ address, proxy = some address → ProxyUrl.isUsable address = true

/-- What reading an endpoint makes sure of. -/
def Checked : Endpoint → Prop
  | tls _ name _ => ServerName.isValid name = true
  | _ => True

theorem checked_of_parsePlain {t : Text} {e : Endpoint} (h : parsePlain t = .ok e) :
    e.Checked := by
  simp only [parsePlain] at h
  split at h
  · split at h
    · cases h
    · cases h
      trivial
  · split at h
    · cases h
    · cases h
      trivial

theorem checked_of_parseTls {t : Text} {skip : Bool} {e : Endpoint}
    (h : parseTls t skip = .ok e) : e.Checked := by
  simp only [parseTls] at h
  split at h
  · split at h
    · cases h
    split at h
    · cases h
    split at h
    · next hname =>
      cases h
      exact hname
    · cases h
  · cases h

theorem checked_of_parseHttps {t : Text} {e : Endpoint} (h : parseHttps t = .ok e) :
    e.Checked := by
  simp only [parseHttps] at h
  split at h
  · cases h
    trivial
  · cases h

end Endpoint

theorem GroupSettings.checked_of_mem {g : GroupSettings} {e : Endpoint}
    (h : e ∈ g.validEndpoints) : e.Checked := by
  obtain ⟨x, hx, he⟩ := List.mem_filterMap.1 h
  cases x with
  | error fault => cases he
  | ok e' =>
    cases he
    simp only [endpoints, List.mem_append, List.mem_map] at hx
    rcases hx with (⟨t, -, ht⟩ | ⟨t, -, ht⟩) | ⟨t, -, ht⟩
    · exact Endpoint.checked_of_parsePlain ht
    · exact Endpoint.checked_of_parseTls ht
    · exact Endpoint.checked_of_parseHttps ht

theorem ServerIdentity.isValid_iff {name : Text} (h : ServerName.isValid name = true) :
    isValid name = true ↔ (IpAddr.parse? name).isSome ∨ ServerName.Provable name := by
  unfold ServerName.isValid at h
  rw [isValid, Bool.or_eq_true]
  cases hip : (IpAddr.parse? name).isSome with
  | true => simp
  | false =>
    rw [hip, Bool.false_or] at h
    rw [isDnsName_iff h, Or.comm]

/-- A caller is made of the endpoints that can be called. -/
theorem Caller.of_eq_ok_iff {e : Endpoint} (h : e.Checked) (proxy : Option Text) :
    (∃ caller, Caller.of e proxy = .ok caller) ↔ e.Callable proxy := by
  cases e with
  | udp address => simp [Caller.of, Endpoint.Callable]
  | tcp address => simp [Caller.of, Endpoint.Callable]
  | tls address name skip =>
    rw [Endpoint.Callable, ← ServerIdentity.isValid_iff h]
    cases hname : ServerIdentity.isValid name <;> simp [Caller.of, hname]
  | https url =>
    cases proxy with
    | none => simp [Caller.of, Endpoint.Callable]
    | some address =>
      cases haddress : ProxyUrl.isUsable address <;>
        simp [Caller.of, Endpoint.Callable, haddress]

namespace Service

theorem callersOf_ne_nil_iff {g : GroupSettings} :
    callersOf g ≠ [] ↔ ∃ e ∈ g.validEndpoints, e.Callable g.socks5 := by
  have hcaller : ∀ e ∈ g.validEndpoints,
      (∃ caller, (Caller.of e g.socks5).toOption = some caller) ↔ e.Callable g.socks5 := by
    intro e he
    rw [← Caller.of_eq_ok_iff (GroupSettings.checked_of_mem he)]
    cases Caller.of e g.socks5 <;> simp [Except.toOption]
  constructor
  · intro h
    obtain ⟨caller, hmem⟩ := List.exists_mem_of_ne_nil _ h
    obtain ⟨e, he, hc⟩ := List.mem_filterMap.1 hmem
    exact ⟨e, he, (hcaller e he).1 ⟨caller, hc⟩⟩
  · rintro ⟨e, he, h⟩
    obtain ⟨caller, hc⟩ := (hcaller e he).2 h
    exact List.ne_nil_of_mem (List.mem_filterMap.2 ⟨e, he, hc⟩)

/-- A group that is there and cannot be used has no server. -/
theorem fault?_groupsOf {s : Settings} {e : Failure}
    (hgroups : ∀ name ∈ [cleanGroup, dirtyGroup], ∃ g, s.group? name = some g)
    (h : ServerGroup.fault? (groupsOf s) = some e) : ∃ name ∈ [cleanGroup, dirtyGroup],
      e = .config s!"Group '{String.ofList name}' has no usable upstream servers" := by
  obtain ⟨name, hname, hfault⟩ := List.exists_of_findSome?_eq_some h
  obtain ⟨g, hg⟩ := hgroups name hname
  refine ⟨name, hname, ?_⟩
  rw [find?_groupsOf, hg] at hfault
  simp only [Option.map_some] at hfault
  split at hfault
  · cases hfault
    rfl
  · cases hfault

variable {host : Host} {s : Settings}

/-- With its rule list and its kernel sets there, a service starts from valid settings when and only
when a caller can be made of an endpoint of `clean` and of one of `dirty`. -/
theorem starts_iff_callable (hvalid : s.fault? = none)
    (hlist : ∀ path, s.ruleList = some path →
      ∃ list, RuleList.load host.files path s.ruleListBase64 = .ok list)
    (hsets : ∀ p ∈ s.groups, SetReady host p.2) :
    ((∃ service, (start host s).result = .ok service) ↔
      ∀ name ∈ [cleanGroup, dirtyGroup], ∃ g, s.group? name = some g ∧
        ∃ e ∈ g.validEndpoints, e.Callable g.socks5) ∧
    (∀ service, (start host s).result = .ok service → service.resolver.groups = groupsOf s ∧
      ∀ name ∈ [cleanGroup, dirtyGroup],
        ∃ g ∈ service.resolver.groups, g.name = name ∧ g.servers ≠ []) ∧
    (∀ failure, (start host s).result = .error failure → ∃ name ∈ [cleanGroup, dirtyGroup],
      failure = ⟨"Upstream groups are not usable",
        .config s!"Group '{String.ofList name}' has no usable upstream servers"⟩) ∧
    (∀ name ∈ [cleanGroup, dirtyGroup],
      ∃ g, s.group? name = some g ∧ g.validEndpoints ≠ []) ∧
    ∀ (g : GroupSettings), ∀ e ∈ g.validEndpoints, ∀ proxy,
      (∃ caller, Caller.of e proxy = .ok caller) ↔ e.Callable proxy := by
  have hs := Settings.routable_of_valid hvalid
  obtain ⟨list, hloaded⟩ := startRuleList_of_loads hlist
  obtain ⟨hosts, hstart⟩ := start_result hloaded hsets
  refine ⟨?_, ?_, ?_, hs.servers,
    fun g e he proxy => Caller.of_eq_ok_iff (GroupSettings.checked_of_mem he) proxy⟩
  · have husable : (∃ service, (start host s).result = .ok service) ↔
        ServerGroup.fault? (groupsOf s) = none := by
      rw [hstart]
      cases ServerGroup.fault? (groupsOf s) <;> simp
    rw [husable, usable_iff]
    simp only [callersOf_ne_nil_iff]
  · intro service hservice
    have h := started hservice
    refine ⟨h.groups, fun name hname => ?_⟩
    obtain ⟨g, hg, hservers⟩ := ServerGroup.fault?_eq_none_iff.1 h.usable name hname
    rw [h.groups]
    exact ⟨g, List.mem_of_find?_eq_some hg, by simpa using List.find?_some hg, hservers⟩
  · intro failure hfailure
    rw [hstart] at hfailure
    cases hfault : ServerGroup.fault? (groupsOf s) with
    | none => simp [hfault] at hfailure
    | some e =>
      obtain ⟨name, hname, rfl⟩ := fault?_groupsOf
        (fun name hname => (hs.servers name hname).imp fun _ hg => hg.1) hfault
      rw [hfault] at hfailure
      cases hfailure
      exact ⟨name, hname, rfl⟩

end Service

/-! ## Servers that are valid and cannot be called -/

namespace GroupSettings

/-- Servers over TLS with these names. -/
def named (names : List Text) : GroupSettings :=
  { standard with dot := names.map ("1.1.1.1:853@".toList ++ ·) }

/-- A server that cannot be called and one that can. -/
def halfNamed : GroupSettings :=
  named ["999.999.999.999".toList, "one.one.one.one".toList]

/-- A server over HTTPS behind a proxy whose address has a blank in it. -/
def misproxied : GroupSettings :=
  { standard with
    socks5 := some "bad host:1".toList
    doh := ["https://x.example/dns-query".toList] }

end GroupSettings

/-- A name of 253 characters and a closing dot. -/
def ServerName.longest : Text :=
  List.replicate 63 'a' ++ '.' :: List.replicate 63 'b' ++ '.' :: List.replicate 63 'c' ++
    '.' :: List.replicate 61 'd' ++ ['.']

/-- Settings with these servers for `clean`, and one for `dirty`. -/
def Settings.withClean (g : GroupSettings) : Settings :=
  { standard with
    groups :=
      [(cleanGroup, g),
       (dirtyGroup, { GroupSettings.standard with dns := ["8.8.8.8:53".toList] })] }

namespace Service

theorem starts_iff_callable_half_named : (Settings.withClean .halfNamed).fault? = none ∧
    ∃ service, (start Host.bare (.withClean .halfNamed)).result = .ok service := by
  have hvalid : (Settings.withClean .halfNamed).fault? = none := by decide
  have hlist : ∀ path, (Settings.withClean .halfNamed).ruleList = some path →
      ∃ list, RuleList.load Host.bare.files path true = .ok list := by
    intro path h
    cases h
  have hsets : ∀ p ∈ (Settings.withClean .halfNamed).groups, SetReady Host.bare p.2 := by
    simp [Settings.withClean, SetReady, GroupSettings.halfNamed, GroupSettings.named,
      GroupSettings.standard]
  refine ⟨hvalid, (starts_iff_callable hvalid hlist hsets).1.2 fun name hname => ?_⟩
  rcases List.mem_cons.1 hname with rfl | hname
  · refine ⟨.halfNamed, rfl, .tls "1.1.1.1:853".toList "one.one.one.one".toList false, by decide,
      .inr ⟨by decide, fun label hlabel => ?_⟩⟩
    cases hlabel
    rfl
  · rw [List.mem_singleton.1 hname]
    exact ⟨_, rfl, .udp "8.8.8.8:53".toList, by decide, trivial⟩

theorem start_withClean {g : GroupSettings} {e : Failure} (hset : g.ipset = none)
    (hfault : ServerGroup.fault? (groupsOf (.withClean g)) = some e) :
    (start Host.bare (.withClean g)).result = .error ⟨"Upstream groups are not usable", e⟩ := by
  have hsets : ∀ p ∈ (Settings.withClean g).groups, SetReady Host.bare p.2 := by
    simp [Settings.withClean, SetReady, GroupSettings.standard, hset]
  have hlist : (startRuleList Host.bare (.withClean g)).result = .ok none := rfl
  obtain ⟨hosts, h⟩ := start_result hlist hsets
  rw [h, hfault]

/-- With these servers for `clean` settings are valid, need no rule list and no kernel set, and yet
no service starts from them. -/
def FailsThoughValid (g : GroupSettings) : Prop :=
  (Settings.withClean g).fault? = none ∧ (Settings.withClean g).ruleList = none ∧
    (∀ p ∈ (Settings.withClean g).groups, p.2.ipset = none) ∧
    (start Host.bare (.withClean g)).result = .error ⟨"Upstream groups are not usable",
      .config "Group 'clean' has no usable upstream servers"⟩

/-- A name that ends in a number, one that is too long with its closing dot, and a proxy that has
no address. -/
theorem valid_without_caller :
    FailsThoughValid (.named ["999.999.999.999".toList]) ∧
      FailsThoughValid (.named [ServerName.longest]) ∧ FailsThoughValid .misproxied := by
  refine ⟨⟨by decide, rfl, by decide, start_withClean rfl (by decide)⟩, ?_,
    ⟨by decide, rfl, by decide, start_withClean rfl (by decide)⟩⟩
  -- The name has 254 characters, so the kernel alone evaluates this one.
  exact ⟨by decide +kernel, rfl, by decide, start_withClean rfl (by decide +kernel)⟩

end Service

end SplitDns
