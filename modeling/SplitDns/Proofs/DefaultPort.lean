import SplitDns.Endpoint
import SplitDns.Proofs.ConnectRequest

/-!
# Default ports

A default port is added to an address or a host that has none, and to nothing else
(`HostPort.withDefault_settled`).  The colons keep the forms apart: there is none in a host or an
IPv4 address, one between these and a port, and there are more in an IPv6 address.  The text that
comes out is settled: no other default changes it, and a proxy that is asked for it is asked for
the host and the port that are written in it.
-/

namespace SplitDns.HostPort

/-! ## Forms of text -/

/-- The text of a host, which is no address and has neither a port nor a bracket in front. -/
structure IsHost (t : Text) : Prop where
  ne_nil : t ≠ []
  head : t.head? ≠ some '['
  colon : ':' ∉ t
  address : IpAddr.parse? t = none

/-- What stands before a port: anything in brackets, or a text without colons. -/
inductive HostPart : Text → Prop
  | bracketed {inside : Text} (h : ']' ∉ inside) : HostPart ('[' :: inside ++ [']'])
  | plain {host : Text} (hhead : host.head? ≠ some '[') (hcolon : ':' ∉ host) : HostPart host

variable {t host digits inside : Text} {ip : IpAddr} {port : UInt16}

theorem IsHost.hostPart (h : IsHost t) : HostPart t :=
  .plain h.head h.colon

/-- A port does not change how a text starts. -/
theorem head?_append_colon (h : host.head? ≠ some '[') (digits : Text) :
    (host ++ ':' :: digits).head? ≠ some '[' := by
  cases host with
  | nil => simp
  | cons c host => simpa using h

theorem parse?_of_head (h : t.head? ≠ some '[') :
    parse? t = (Text.cutLast? ':' t).bind fun (host, digits) =>
      if host.contains ':' then none
      else (Decimal.word16? digits).bind fun port => some (host, port) := by
  unfold parse?
  split
  next r => exact absurd rfl h
  next => rfl

theorem isSome_parse?_append (hhost : HostPart host) (hport : Decimal.word16? digits = some port) :
    (parse? (host ++ ':' :: digits)).isSome := by
  have hdigits : ':' ∉ digits := Decimal.colon_notMem_of_word16? hport
  cases hhost with
  | @bracketed inside hin =>
    have hcut := Text.cutFirst?_append hin (':' :: digits)
    have hafter : Text.after? [':'] (':' :: digits) = some digits :=
      Text.after?_eq_some_iff.2 rfl
    simp [parse?, hcut, hafter, hport]
  | plain hhead hcolon =>
    rw [parse?_of_head (head?_append_colon hhead digits), Text.cutLast?_append host hdigits]
    simp [hcolon, hport]

/-- A host and a port are read from just these texts. -/
theorem isSome_parse?_iff : (parse? t).isSome ↔
    ∃ host digits port, HostPart host ∧ Decimal.word16? digits = some port ∧
      t = host ++ ':' :: digits := by
  constructor
  · intro h
    obtain ⟨⟨host, port⟩, h⟩ := Option.isSome_iff_exists.1 h
    by_cases hhead : t.head? = some '['
    · obtain ⟨r, rfl⟩ := List.head?_eq_some_iff.1 hhead
      obtain ⟨⟨inside, rest⟩, hcut, h⟩ := Option.bind_eq_some_iff.1 h
      obtain ⟨digits, hafter, h⟩ := Option.bind_eq_some_iff.1 h
      obtain ⟨port', hport, -⟩ := Option.bind_eq_some_iff.1 h
      obtain ⟨rfl, hin⟩ := Text.eq_append_of_cutFirst? hcut
      cases Text.after?_eq_some_iff.1 hafter
      exact ⟨_, digits, port', .bracketed hin, hport, by simp⟩
    · rw [parse?_of_head hhead] at h
      obtain ⟨⟨name, digits⟩, hcut, hread⟩ := Option.bind_eq_some_iff.1 h
      cases Text.eq_append_of_cutLast? hcut
      by_cases hcolon : ':' ∈ name
      · simp [hcolon] at hread
      · simp only [List.contains_eq_mem, hcolon, decide_false, Bool.false_eq_true, if_false]
          at hread
        obtain ⟨port', hport, -⟩ := Option.bind_eq_some_iff.1 hread
        have hname : name.head? ≠ some '[' := by
          cases name with
          | nil => simp
          | cons c name => simpa using hhead
        exact ⟨name, digits, port', .plain hname hcolon, hport, rfl⟩
  · rintro ⟨host, digits, port, hhost, hport, rfl⟩
    exact isSome_parse?_append hhost hport

/-- An address in brackets is read up to the brackets at both ends. -/
theorem bracketed?_eq_some_iff : bracketed? t = some ip ↔
    ∃ inside, IpAddr.parse? inside = some ip ∧ t = '[' :: inside ++ [']'] := by
  constructor
  · intro h
    obtain ⟨r, hafter, h⟩ := Option.bind_eq_some_iff.1 h
    obtain ⟨inside, hbefore, hip⟩ := Option.bind_eq_some_iff.1 h
    cases Text.after?_eq_some_iff.1 hafter
    cases Text.eq_append_of_before? hbefore
    exact ⟨inside, hip, rfl⟩
  · rintro ⟨inside, hip, rfl⟩
    have hafter : Text.after? ['['] ('[' :: inside ++ [']']) = some (inside ++ [']']) :=
      Text.after?_eq_some_iff.2 rfl
    rw [bracketed?, hafter]
    simp [Text.before?_append, hip]

theorem bracketed?_eq_none (h : t.head? ≠ some '[') : bracketed? t = none := by
  cases hb : bracketed? t with
  | none => rfl
  | some ip =>
    obtain ⟨inside, -, rfl⟩ := bracketed?_eq_some_iff.1 hb
    exact absurd rfl h

/-! ## The default -/

theorem withDefault_of_socket {a : SocketAddr} (h : SocketAddr.parse? t = some a) (p : UInt16) :
    withDefault t p = t := by
  simp [withDefault, h]

theorem withDefault_of_ip (hnone : SocketAddr.parse? t = none)
    (h : (IpAddr.parse? t).or (bracketed? t) = some ip) (p : UInt16) :
    withDefault t p = (SocketAddr.of ip p).text := by
  simp [withDefault, hnone, h]

theorem withDefault_of_port (hip : (IpAddr.parse? t).or (bracketed? t) = none)
    (h : (parse? t).isSome) (p : UInt16) : withDefault t p = t := by
  simp [withDefault, hip, h]

theorem withDefault_of_none (hnone : SocketAddr.parse? t = none)
    (hip : (IpAddr.parse? t).or (bracketed? t) = none) (h : parse? t = none) (p : UInt16) :
    withDefault t p = t ++ ':' :: Decimal.text p.toNat := by
  simp [withDefault, hnone, hip, h]

/-- An address alone or in brackets is read, and not as a socket address. -/
theorem ip_of_forms (h : IpAddr.parse? inside = some ip)
    (hform : t = inside ∨ t = '[' :: inside ++ [']']) :
    SocketAddr.parse? t = none ∧ (IpAddr.parse? t).or (bracketed? t) = some ip := by
  rcases hform with rfl | rfl
  · exact ⟨SocketAddr.parse?_of_ip h, by rw [h, Option.some_or]⟩
  · have hin : ']' ∉ inside := (IpAddr.bracket_notMem_of_parse? h).2
    constructor
    · rw [SocketAddr.parse?_bracket hin]
      simp
    · have hnone : IpAddr.parse? ('[' :: inside ++ [']']) = none := by
        cases hip : IpAddr.parse? ('[' :: inside ++ [']']) with
        | none => rfl
        | some _ => exact absurd (List.mem_cons_self ..) (IpAddr.bracket_notMem_of_parse? hip).1
      rw [hnone, Option.none_or]
      exact bracketed?_eq_some_iff.2 ⟨inside, h, rfl⟩

/-! ## Hosts and the default -/

namespace IsHost

theorem ip_eq_none (h : IsHost t) : (IpAddr.parse? t).or (bracketed? t) = none := by
  rw [h.address, bracketed?_eq_none h.head, Option.none_or]

theorem socket_eq_none (h : IsHost t) : SocketAddr.parse? t = none := by
  rw [SocketAddr.parse?_of_head h.head, Text.cutLast?_eq_none h.colon]
  rfl

theorem parse?_eq_none (h : IsHost t) : parse? t = none := by
  rw [parse?_of_head h.head, Text.cutLast?_eq_none h.colon]
  rfl

theorem withDefault_eq (h : IsHost t) (p : UInt16) :
    withDefault t p = t ++ ':' :: Decimal.text p.toNat :=
  withDefault_of_none h.socket_eq_none h.ip_eq_none h.parse?_eq_none p

/-- Only an IPv4 address would make a socket address of a text with one colon. -/
theorem socket_port_eq_none (h : IsHost host) (hport : Decimal.word16? digits = some port) :
    SocketAddr.parse? (host ++ ':' :: digits) = none := by
  have hdigits : ':' ∉ digits := Decimal.colon_notMem_of_word16? hport
  rw [SocketAddr.parse?_of_head (head?_append_colon h.head digits),
    Text.cutLast?_append host hdigits]
  simp [IpAddr.ipv4_eq_none h.address]

theorem ip_port_eq_none (h : IsHost host) (hport : Decimal.word16? digits = some port) :
    (IpAddr.parse? (host ++ ':' :: digits)).or (bracketed? (host ++ ':' :: digits)) = none := by
  have hdigits : ':' ∉ digits := Decimal.colon_notMem_of_word16? hport
  have hone : (host ++ ':' :: digits).count ':' = 1 := by
    rw [List.count_append, List.count_cons_self, List.count_eq_zero.2 h.colon,
      List.count_eq_zero.2 hdigits]
  have hnone : IpAddr.parse? (host ++ ':' :: digits) = none := by
    cases hip : IpAddr.parse? (host ++ ':' :: digits) with
    | none => rfl
    | some ip =>
      have hcount := IpAddr.count_of_parse? hip
      omega
  rw [hnone, bracketed?_eq_none (head?_append_colon h.head digits), Option.none_or]

theorem withDefault_port (h : IsHost host) (hport : Decimal.word16? digits = some port)
    (p : UInt16) : withDefault (host ++ ':' :: digits) p = host ++ ':' :: digits :=
  withDefault_of_port (h.ip_port_eq_none hport) (isSome_parse?_append h.hostPart hport) p

end IsHost

/-! ## Settled texts -/

/-- No default changes the text, and the request for it asks for a destination and a port.  There
is no request for a host of more than 255 octets. -/
def Settled (t : Text) (d : Socks.Destination) (port : UInt16) : Prop :=
  (∀ q, withDefault t q = t) ∧
    ((∀ name, d = .host name → Utf8.size name ≤ 255) → Socks.Asks t d port)

theorem settled_of_socket {a : SocketAddr} (h : SocketAddr.parse? t = some a) :
    Settled t (.address a.ip) a.port :=
  ⟨withDefault_of_socket h, fun _ => (Socks.Names.address h).asks⟩

theorem IsHost.settled (h : IsHost host) (hport : Decimal.word16? digits = some port) :
    Settled (host ++ ':' :: digits) (.host host) port := by
  refine ⟨h.withDefault_port hport, fun hsize => ?_⟩
  have hpos : 1 ≤ Utf8.size host := by
    by_contra hzero
    exact h.ne_nil (List.isEmpty_iff.1 ((Socks.isEmpty_iff_size host).2 (by omega)))
  exact (Socks.Names.host (h.socket_port_eq_none hport) hpos (hsize host rfl) hport).asks

/-- A default is added where there is no port: to an address, which is put in brackets if it needs
them, and to the name of a host.  A socket address and a host with a port stay as they are.  What
comes out is settled, with the address or host and the port that were given. -/
theorem withDefault_settled (s : Text) (p : UInt16) :
    (∀ a, SocketAddr.parse? s = some a →
      withDefault s p = s ∧ Settled (withDefault s p) (.address a.ip) a.port) ∧
    (∀ t ip, IpAddr.parse? t = some ip → s = t ∨ s = '[' :: t ++ [']'] →
      SocketAddr.parse? (withDefault s p) = some (.of ip p) ∧
        Settled (withDefault s p) (.address ip) p) ∧
    (IsHost s → withDefault s p = s ++ ':' :: Decimal.text p.toNat ∧
      Settled (withDefault s p) (.host s) p) ∧
    ∀ host digits port, IsHost host → Decimal.word16? digits = some port →
      s = host ++ ':' :: digits →
      withDefault s p = s ∧ Settled (withDefault s p) (.host host) port := by
  refine ⟨?_, ?_, ?_, ?_⟩
  · intro a ha
    rw [withDefault_of_socket ha]
    exact ⟨rfl, settled_of_socket ha⟩
  · intro t ip hip hform
    obtain ⟨hnone, hread⟩ := ip_of_forms hip hform
    rw [withDefault_of_ip hnone hread]
    have hsocket := SocketAddr.parse?_text (.of ip p)
    have hsettled := settled_of_socket hsocket
    cases ip with
    | v4 ip => exact ⟨hsocket, hsettled⟩
    | v6 ip => exact ⟨hsocket, hsettled⟩
  · intro h
    rw [h.withDefault_eq]
    exact ⟨rfl, h.settled (Decimal.word16?_text p)⟩
  · rintro host digits port h hport rfl
    rw [h.withDefault_port hport]
    exact ⟨rfl, h.settled hport⟩

/-- The address `::1`. -/
def loopback : Ipv6 :=
  ⟨[0, 0, 0, 0, 0, 0, 0, 1], rfl⟩

/-- An address with a port, one in brackets, a host and a host with a port. -/
theorem withDefault_settled_forms :
    Settled (withDefault "[::1]:53".toList 853) (.address (.v6 loopback)) 53 ∧
      Settled (withDefault "[::1]".toList 853) (.address (.v6 loopback)) 853 ∧
      Settled (withDefault "dns.google".toList 853) (.host "dns.google".toList) 853 ∧
      Settled (withDefault "dns.google:+53".toList 853) (.host "dns.google".toList) 53 := by
  have hhost : IsHost "dns.google".toList := ⟨by decide, by decide, by decide, rfl⟩
  obtain ⟨hsocket, -⟩ := withDefault_settled "[::1]:53".toList 853
  obtain ⟨-, hip, -⟩ := withDefault_settled "[::1]".toList 853
  obtain ⟨-, -, hname, -⟩ := withDefault_settled "dns.google".toList 853
  obtain ⟨-, -, -, hport⟩ := withDefault_settled "dns.google:+53".toList 853
  exact ⟨(hsocket (.v6 loopback 0 53) rfl).2, (hip "::1".toList (.v6 loopback) rfl (.inr rfl)).2,
    (hname hhost).2, (hport "dns.google".toList "+53".toList 53 hhost rfl rfl).2⟩

end SplitDns.HostPort
