import SplitDns.Proofs.Callable
import SplitDns.Proofs.DefaultPort

/-!
# Targets that can be dialled

To be dialled a target needs a host and one port (`HostPort.IsDialable`).  The forms of address from
which the default makes one are those of `HostPort.Complete`.  Endpoints are read from other texts
too: an address whose port is no number below 65536 or whose bracket is not closed gets a second
port, and an empty host stays empty (`Endpoint.dialable_iff_complete`).
-/

namespace SplitDns

namespace HostPort

/-! ## Hosts with one port -/

/-- A socket address, or a host without colons and the port behind it. -/
def IsDialable (t : Text) : Prop :=
  (SocketAddr.parse? t).isSome ∨ ∃ host digits, host ≠ [] ∧ ':' ∉ host ∧
    (Decimal.word16? digits).isSome ∧ t = host ++ ':' :: digits

variable {t host digits inside : Text} {ip : IpAddr} {port : UInt16}

theorem isDialable_iff : IsDialable t ↔ ((SocketAddr.parse? t).isSome ||
    (Text.cutFirst? ':' t).any fun (host, digits) =>
      !host.isEmpty && (Decimal.word16? digits).isSome) = true := by
  rw [IsDialable, Bool.or_eq_true, Option.any_eq_true]
  refine or_congr_right ⟨?_, ?_⟩
  · rintro ⟨host, digits, hne, hcolon, hport, rfl⟩
    exact ⟨_, Text.cutFirst?_append hcolon digits, by simp [hne, hport]⟩
  · rintro ⟨⟨host, digits⟩, hcut, hparts⟩
    obtain ⟨ht, hcolon⟩ := Text.eq_append_of_cutFirst? hcut
    simp only [Bool.and_eq_true, Bool.not_eq_true', List.isEmpty_eq_false_iff] at hparts
    exact ⟨host, digits, hparts.1, hcolon, hparts.2, ht⟩

instance (t : Text) : Decidable (IsDialable t) :=
  decidable_of_iff _ isDialable_iff.symm

/-- Behind a port that is one there is no other. -/
theorem isDialable_port (hnone : SocketAddr.parse? (host ++ ':' :: digits) = none)
    (hport : Decimal.word16? digits = some port) :
    IsDialable (host ++ ':' :: digits) ↔ host ≠ [] ∧ ':' ∉ host := by
  have hcut : ∀ name rest p, Decimal.word16? rest = some p →
      Text.cutLast? ':' (name ++ ':' :: rest) = some (name, rest) := fun name _ _ hp =>
    Text.cutLast?_append name (Decimal.colon_notMem_of_word16? hp)
  constructor
  · rintro (hsocket | ⟨name, rest, hne, hcolon, hp, ht⟩)
    · rw [hnone] at hsocket
      cases hsocket
    · obtain ⟨p, hp⟩ := Option.isSome_iff_exists.1 hp
      have heq := hcut host digits port hport
      rw [ht, hcut name rest p hp] at heq
      cases heq
      exact ⟨hne, hcolon⟩
  · rintro ⟨hne, hcolon⟩
    exact .inr ⟨host, digits, hne, hcolon, by rw [hport]; rfl, rfl⟩

/-! ## Complete addresses -/

/-- The forms of address that name a host and at most one port. -/
inductive Complete : Text → Prop
  | socket {t : Text} (h : (SocketAddr.parse? t).isSome) : Complete t
  | address {t : Text} (h : (IpAddr.parse? t).isSome) : Complete t
  | bracketed {inside : Text} (h : (IpAddr.parse? inside).isSome) :
    Complete ('[' :: inside ++ [']'])
  | zone {inside : Text} (hin : ']' ∉ inside) (h : (SocketAddr.scoped? inside).isSome) :
    Complete ('[' :: inside ++ [']'])
  | host {t : Text} (hne : t ≠ []) (hcolon : ':' ∉ t) : Complete t
  | port {host digits : Text} (hhost : HostPart host) (hne : host ≠ []) (hcolon : ':' ∉ host)
    (hport : (Decimal.word16? digits).isSome) : Complete (host ++ ':' :: digits)

/-- A port is all that an address with a scope is short of. -/
theorem isSome_socket_append_iff (hip : IpAddr.parse? t = none) (p : UInt16) :
    (SocketAddr.parse? (t ++ ':' :: Decimal.text p.toNat)).isSome ↔
      ∃ inside, ']' ∉ inside ∧ (SocketAddr.scoped? inside).isSome ∧
        t = '[' :: inside ++ [']'] := by
  have hdigits := SocketAddr.colon_notMem_of_port? (SocketAddr.port?_text p)
  have hlast := Text.cutLast?_append (c := ':') t hdigits
  constructor
  · intro h
    by_cases hhead : (t ++ ':' :: Decimal.text p.toNat).head? = some '['
    · obtain ⟨a, ha⟩ := Option.isSome_iff_exists.1 h
      obtain ⟨r, hr⟩ := List.head?_eq_some_iff.1 hhead
      rw [hr] at ha hlast
      obtain ⟨inside, digits, q, hin, hscoped, hq, rfl⟩ := SocketAddr.eq_bracket_of_parse? ha
      have heq := Text.cutLast?_append (c := ':') ('[' :: inside ++ [']'])
        (SocketAddr.colon_notMem_of_port? hq)
      rw [List.append_assoc, List.cons_append, List.singleton_append, hlast] at heq
      cases heq
      exact ⟨inside, hin, hscoped, rfl⟩
    · rw [SocketAddr.parse?_of_head hhead, hlast] at h
      simp [IpAddr.ipv4_eq_none hip] at h
  · rintro ⟨inside, hin, hscoped, rfl⟩
    obtain ⟨⟨ip, scope⟩, hscoped⟩ := Option.isSome_iff_exists.1 hscoped
    have hread := SocketAddr.parse?_bracket hin (':' :: Decimal.text p.toNat)
    rw [hscoped] at hread
    rw [List.append_assoc, List.singleton_append, hread]
    simp [SocketAddr.port?_text]

/-- What is in brackets and closes with them has no port. -/
theorem parse?_bracketed (hin : ']' ∉ inside) : parse? ('[' :: inside ++ [']']) = none := by
  have hafter : Text.after? [':'] [] = none := rfl
  simp [parse?, Text.cutFirst?_append hin, hafter]

variable (hnone : SocketAddr.parse? t = none)
  (hip : (IpAddr.parse? t).or (bracketed? t) = none)

include hnone hip

/-- Besides the addresses that are read, with a port or without, three forms are complete. -/
theorem Complete.of_neither (h : Complete t) :
    (∃ inside, ']' ∉ inside ∧ (SocketAddr.scoped? inside).isSome ∧ t = '[' :: inside ++ [']']) ∨
      (t ≠ [] ∧ ':' ∉ t) ∨ ∃ host digits port, HostPart host ∧ host ≠ [] ∧ ':' ∉ host ∧
        Decimal.word16? digits = some port ∧ t = host ++ ':' :: digits := by
  obtain ⟨haddress, hbracketed⟩ := Option.or_eq_none_iff.1 hip
  cases h with
  | socket h => simp [hnone] at h
  | address h => simp [haddress] at h
  | bracketed h =>
    obtain ⟨ip, h⟩ := Option.isSome_iff_exists.1 h
    rw [bracketed?_eq_some_iff.2 ⟨_, h, rfl⟩] at hbracketed
    cases hbracketed
  | zone hin h => exact .inl ⟨_, hin, h, rfl⟩
  | host hne hcolon => exact .inr (.inl ⟨hne, hcolon⟩)
  | port hhost hne hcolon h =>
    obtain ⟨port, h⟩ := Option.isSome_iff_exists.1 h
    exact .inr (.inr ⟨_, _, port, hhost, hne, hcolon, h, rfl⟩)

theorem isDialable_iff_of_port (h : (parse? t).isSome) : IsDialable t ↔ Complete t := by
  constructor
  · obtain ⟨host, digits, port, hhost, hport, rfl⟩ := isSome_parse?_iff.1 h
    rw [isDialable_port hnone hport]
    rintro ⟨hne, hcolon⟩
    exact .port hhost hne hcolon (by rw [hport]; rfl)
  · intro hcomplete
    rcases hcomplete.of_neither hnone hip with ⟨inside, hin, -, rfl⟩ | ⟨-, hcolon⟩ |
      ⟨host, digits, port, -, hne, hcolon, hport, rfl⟩
    · rw [parse?_bracketed hin] at h
      cases h
    · obtain ⟨host, digits, port, -, -, rfl⟩ := isSome_parse?_iff.1 h
      simp at hcolon
    · exact (isDialable_port hnone hport).2 ⟨hne, hcolon⟩

theorem isDialable_append_iff (h : parse? t = none) (p : UInt16) :
    IsDialable (t ++ ':' :: Decimal.text p.toNat) ↔ Complete t := by
  have hsocket := isSome_socket_append_iff (Option.or_eq_none_iff.1 hip).1 p
  by_cases hs : (SocketAddr.parse? (t ++ ':' :: Decimal.text p.toNat)).isSome
  · obtain ⟨inside, hin, hscoped, ht⟩ := hsocket.1 hs
    refine iff_of_true (.inl hs) ?_
    rw [ht]
    exact .zone hin hscoped
  · rw [isDialable_port (Option.not_isSome_iff_eq_none.1 hs) (Decimal.word16?_text p)]
    constructor
    · rintro ⟨hne, hcolon⟩
      exact .host hne hcolon
    · intro hcomplete
      rcases hcomplete.of_neither hnone hip with hbracket | hhost |
        ⟨host, digits, port, hhost, -, -, hport, rfl⟩
      · exact absurd (hsocket.2 hbracket) hs
      · exact hhost
      · have hsome := isSome_parse?_append hhost hport
        rw [h] at hsome
        cases hsome

omit hnone hip

/-- The default makes a target that can be dialled of the complete addresses, and of no others. -/
theorem isDialable_withDefault_iff (t : Text) (p : UInt16) :
    IsDialable (withDefault t p) ↔ Complete t := by
  cases hsocket : SocketAddr.parse? t with
  | some a =>
    have hsome : (SocketAddr.parse? t).isSome := by rw [hsocket]; rfl
    rw [withDefault_of_socket hsocket]
    exact iff_of_true (.inl hsome) (.socket hsome)
  | none =>
    cases hip : (IpAddr.parse? t).or (bracketed? t) with
    | some ip =>
      rw [withDefault_of_ip hsocket hip]
      refine iff_of_true (.inl (by rw [SocketAddr.parse?_text]; rfl)) ?_
      rcases Option.or_eq_some_iff.1 hip with h | ⟨-, h⟩
      · exact .address (by rw [h]; rfl)
      · obtain ⟨inside, hinside, rfl⟩ := bracketed?_eq_some_iff.1 h
        exact .bracketed (by rw [hinside]; rfl)
    | none =>
      cases hport : parse? t with
      | some parts =>
        have hsome : (parse? t).isSome := by rw [hport]; rfl
        rw [withDefault_of_port hip hsome]
        exact isDialable_iff_of_port hsocket hip hsome
      | none =>
        rw [withDefault_of_none hsocket hip hport]
        exact isDialable_append_iff hsocket hip hport p

end HostPort

namespace Endpoint

open HostPort

/-! ## What is read -/

/-- The address of a plain server, without what selects TCP. -/
def plainAddress (s : Text) : Text :=
  (Text.before? "/tcp".toList (Text.trim s)).getD (Text.trim s)

/-- The parts of a server over TLS that is accepted. -/
structure TlsParts (s address name : Text) : Prop where
  split_eq : Text.split (· == '@') (Text.trim s) = [address, name]
  address_ne_nil : address ≠ []
  name_ne_nil : name ≠ []
  isValid : ServerName.isValid name = true

variable {s address name : Text} {skip : Bool} {e : Endpoint}

theorem parsePlain_eq_ok_iff : parsePlain s = .ok e ↔ plainAddress s ≠ [] ∧
    e = (if (Text.before? "/tcp".toList (Text.trim s)).isSome then tcp else udp)
      (withDefault (plainAddress s) dnsPort) := by
  have hread : ∀ (t address : Text) (f : Text → Endpoint),
      (if address.isEmpty then .error (.emptyAddress t)
        else .ok (f (withDefault address dnsPort)) : Except EndpointFault Endpoint) = .ok e ↔
      address ≠ [] ∧ e = f (withDefault address dnsPort) := by
    intro t address f
    cases address <;> simp [eq_comm]
  simp only [parsePlain, plainAddress]
  cases Text.before? "/tcp".toList (Text.trim s) with
  | none => exact hread _ _ udp
  | some address => exact hread _ _ tcp

theorem parseTls_eq_ok_iff : parseTls s skip = .ok e ↔
    ∃ address name, TlsParts s address name ∧ e = tls (withDefault address tlsPort) name skip := by
  constructor
  · intro h
    simp only [parseTls] at h
    split at h
    next address name hsplit =>
      split at h
      · cases h
      next haddress =>
        split at h
        · cases h
        next hname =>
          split at h
          next hvalid =>
            cases h
            exact ⟨address, name, ⟨hsplit, by simpa using haddress, by simpa using hname, hvalid⟩,
              rfl⟩
          · cases h
    next => cases h
  · rintro ⟨address, name, h, rfl⟩
    simp [parseTls, h.split_eq, h.address_ne_nil, h.name_ne_nil, h.isValid]

theorem TlsParts.unique {address' name' : Text} (h : TlsParts s address name)
    (h' : TlsParts s address' name') : address = address' ∧ name = name' := by
  have heq := h.split_eq.symm.trans h'.split_eq
  simpa using heq

/-! ## What counts -/

theorem hasServer_of_mem {settings : Settings} {group : Text} {g : GroupSettings}
    (hgroup : settings.group? group = some g) (h : .ok e ∈ g.endpoints) :
    settings.hasServer group = true := by
  have hmem : e ∈ g.validEndpoints := List.mem_filterMap.2 ⟨.ok e, h, rfl⟩
  rw [Settings.hasServer, hgroup]
  simp [List.ne_nil_of_mem hmem]

/-- Every address that is not empty is accepted, and every one before a valid name.  It then counts
as a server of its group, but a target that can be dialled comes of the complete ones only. -/
theorem dialable_iff_complete (s : Text) (skip : Bool) :
    ((∃ e, parsePlain s = .ok e) ↔ plainAddress s ≠ []) ∧
    (∀ e, parsePlain s = .ok e → e.target = withDefault (plainAddress s) dnsPort ∧
      (IsDialable e.target ↔ Complete (plainAddress s))) ∧
    ((∃ e, parseTls s skip = .ok e) ↔ ∃ address name, TlsParts s address name) ∧
    (∀ e address name, parseTls s skip = .ok e → TlsParts s address name →
      e.target = withDefault address tlsPort ∧ (IsDialable e.target ↔ Complete address)) ∧
    ∀ (settings : Settings) group g, settings.group? group = some g →
      s ∈ g.dns ∧ plainAddress s ≠ [] ∨ s ∈ g.dot ∧ (∃ address name, TlsParts s address name) →
      settings.hasServer group = true := by
  refine ⟨?_, ?_, ?_, ?_, ?_⟩
  · simp [parsePlain_eq_ok_iff]
  · intro e he
    obtain ⟨-, rfl⟩ := parsePlain_eq_ok_iff.1 he
    have htarget : ∀ address, target ((if (Text.before? "/tcp".toList (Text.trim s)).isSome
        then tcp else udp) address) = address := by
      intro address
      split <;> rfl
    rw [htarget]
    exact ⟨rfl, isDialable_withDefault_iff _ dnsPort⟩
  · constructor
    · rintro ⟨e, he⟩
      obtain ⟨address, name, h, -⟩ := parseTls_eq_ok_iff.1 he
      exact ⟨address, name, h⟩
    · rintro ⟨address, name, h⟩
      exact ⟨_, parseTls_eq_ok_iff.2 ⟨address, name, h, rfl⟩⟩
  · intro e address name he h
    obtain ⟨address', name', h', rfl⟩ := parseTls_eq_ok_iff.1 he
    obtain ⟨rfl, rfl⟩ := h.unique h'
    exact ⟨rfl, isDialable_withDefault_iff _ tlsPort⟩
  · rintro settings group g hgroup (⟨hmem, hne⟩ | ⟨hmem, address, name, h⟩)
    · have hread := parsePlain_eq_ok_iff.2 ⟨hne, rfl⟩
      exact hasServer_of_mem hgroup
        (List.mem_append_left _ (List.mem_append_left _ (List.mem_map.2 ⟨s, hmem, hread⟩)))
    · have hread : parseTls s g.dotSkipVerify = .ok _ :=
        parseTls_eq_ok_iff.2 ⟨address, name, h, rfl⟩
      exact hasServer_of_mem hgroup
        (List.mem_append_left _ (List.mem_append_right _ (List.mem_map.2 ⟨s, hmem, hread⟩)))

/-- A server over TLS; taken as a plain one it would get a second port. -/
theorem dialable_iff_complete_tls :
    ¬ Complete (plainAddress "1.1.1.1:853@one.one.one.one".toList) ∧
      Complete "1.1.1.1:853".toList ∧
      (Settings.withClean .halfNamed).hasServer cleanGroup = true := by
  have hparts : TlsParts "1.1.1.1:853@one.one.one.one".toList "1.1.1.1:853".toList
      "one.one.one.one".toList := ⟨rfl, by decide, by decide, by decide⟩
  obtain ⟨-, hplain, -, htls, hserver⟩ :=
    dialable_iff_complete "1.1.1.1:853@one.one.one.one".toList false
  refine ⟨?_, ?_, ?_⟩
  · obtain ⟨-, hiff⟩ := hplain (udp "1.1.1.1:853@one.one.one.one:53".toList) (by decide +kernel)
    exact mt hiff.2 (by decide)
  · obtain ⟨-, hiff⟩ :=
      htls (tls "1.1.1.1:853".toList "one.one.one.one".toList false) _ _ rfl hparts
    exact hiff.1 (by decide)
  · exact hserver (.withClean .halfNamed) cleanGroup .halfNamed rfl (.inr ⟨by decide, _, _, hparts⟩)

/-- A port that is too large, a host that is empty and a bracket that is not closed are accepted,
and settings with such a server for a group are valid. -/
theorem accepts_undialable :
    parsePlain "dns.google:99999".toList = .ok (udp "dns.google:99999:53".toList) ∧
      ¬ IsDialable "dns.google:99999:53".toList ∧
      parsePlain ":53/tcp".toList = .ok (tcp ":53".toList) ∧ ¬ IsDialable ":53".toList ∧
      parseTls "[::1@one.one.one.one".toList false =
        .ok (tls "[::1:853".toList "one.one.one.one".toList false) ∧
      ¬ IsDialable "[::1:853".toList ∧
      (Settings.withClean { GroupSettings.standard with
        dns := ["dns.google:99999".toList] }).fault? = none := by
  -- Numbers are written by a recursion that `decide` does not unfold but the kernel does.
  exact ⟨by decide +kernel, by decide, by decide +kernel, by decide, by decide +kernel, by decide,
    by decide +kernel⟩

end Endpoint

end SplitDns
