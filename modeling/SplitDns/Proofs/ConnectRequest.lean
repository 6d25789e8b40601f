import SplitDns.Proofs.Reading
import SplitDns.Proofs.Records
import SplitDns.Proofs.SocketText
import SplitDns.Proofs.TextCodecs
import SplitDns.Transport.Socks

/-!
# Requests to connect

What a request to a proxy asks for is read from its octets alone (`Socks.Connect.decode?`): one
address in one of three forms, a port, and nothing behind it.  It is what the target of the request
names (`Socks.Names`), a socket address without its scope or a host before the last colon, so
targets with one request name one place.
-/

namespace SplitDns.Socks

/-! ## Reading requests -/

/-- The address in a request: the octets of an IP address, or a domain behind their number. -/
inductive Place where
  | ipv4 (octets : Bytes)
  | domain (length : UInt8) (name : Bytes)
  | ipv6 (octets : Bytes)
  deriving DecidableEq, Repr

/-- The fields of a request, as RFC 1928 has them. -/
structure Connect where
  version : UInt8
  command : UInt8
  reserved : UInt8
  place : Place
  port : UInt16
  deriving DecidableEq, Repr

/-- The address of a type at the front of octets, and those behind it. -/
def Place.cut? : UInt8 → Bytes → Option (Place × Bytes)
  | 1, bs => (cutOctets? 4 bs).map fun (octets, rest) => (ipv4 octets, rest)
  | 3, n :: bs => (cutOctets? n.toNat bs).map fun (name, rest) => (domain n name, rest)
  | 4, bs => (cutOctets? 16 bs).map fun (octets, rest) => (ipv6 octets, rest)
  | _, _ => none

/-- Reads octets that are a request as a whole. -/
def Connect.decode? : Bytes → Option Connect
  | version :: command :: reserved :: type :: bs =>
    match Place.cut? type bs with
    | some (place, [high, low]) =>
      some ⟨version, command, reserved, place, Word.ofOctets16 high low⟩
    | _ => none
  | _ => none

/-! ## What targets name -/

/-- Where a target leads: to an address, or to a host that the proxy looks up. -/
inductive Destination where
  | address (ip : IpAddr)
  | host (name : Text)
  deriving DecidableEq, Repr

/-- A request leads to an address by its octets and to a host by its name. -/
inductive Destination.At : Destination → Place → Prop
  | v4 (ip : Ipv4) : At (.address (.v4 ip)) (.ipv4 ip.octets)
  | v6 (ip : Ipv6) : At (.address (.v6 ip)) (.ipv6 ip.octets)
  | host {name : Text} {n : UInt8} (h : n.toNat = Utf8.size name) :
    At (.host name) (.domain n (Utf8.encode name))

/-- The destination and the port in a text: those of a socket address, or a host of 1 to 255 octets
before the last colon and the port behind it. -/
inductive Names : Text → Destination → UInt16 → Prop
  | address {t : Text} {a : SocketAddr} (h : SocketAddr.parse? t = some a) :
    Names t (.address a.ip) a.port
  | host {name digits : Text} {port : UInt16}
    (hnone : SocketAddr.parse? (name ++ ':' :: digits) = none) (hpos : 1 ≤ Utf8.size name)
    (hsize : Utf8.size name ≤ 255) (hport : Decimal.word16? digits = some port) :
    Names (name ++ ':' :: digits) (.host name) port

/-- The request for a text asks to connect to a destination and a port. -/
def Asks (t : Text) (d : Destination) (port : UInt16) : Prop :=
  ∃ bs place, request t = .ok bs ∧ Connect.decode? bs = some ⟨5, 1, 0, place, port⟩ ∧ d.At place

/-- Octets tell destinations apart. -/
theorem Destination.At.unique {d d' : Destination} {place : Place} (h : d.At place)
    (h' : d'.At place) : d = d' := by
  cases h with
  | v4 ip =>
    generalize hplace : Place.ipv4 ip.octets = place at h'
    cases h' with
    | v4 ip' =>
      have hip := congrArg Ipv4.ofOctets? (Place.ipv4.inj hplace)
      rw [Ipv4.ofOctets?_octets, Ipv4.ofOctets?_octets] at hip
      rw [Option.some.inj hip]
    | v6 => cases hplace
    | host => cases hplace
  | v6 ip =>
    generalize hplace : Place.ipv6 ip.octets = place at h'
    cases h' with
    | v4 => cases hplace
    | v6 ip' =>
      have hip := congrArg Ipv6.ofOctets? (Place.ipv6.inj hplace)
      rw [Ipv6.ofOctets?_octets, Ipv6.ofOctets?_octets] at hip
      rw [Option.some.inj hip]
    | host => cases hplace
  | @host name n hn =>
    generalize hplace : Place.domain n (Utf8.encode name) = place at h'
    cases h' with
    | v4 => cases hplace
    | v6 => cases hplace
    | host => rw [Utf8.encode_inj (Place.domain.inj hplace).2]

/-! ## Requests and targets -/

theorem target_of_address {t : Text} {a : SocketAddr} (h : SocketAddr.parse? t = some a) :
    target t = .ok (.address a) := by
  rw [target, h]

theorem target_of_host {name digits : Text} {port : UInt16}
    (hnone : SocketAddr.parse? (name ++ ':' :: digits) = none)
    (hport : Decimal.word16? digits = some port) :
    target (name ++ ':' :: digits) =
      if name.isEmpty || 255 < Utf8.size name then .error (.targetHost name)
      else .ok (.host name port) := by
  have hcolon : ':' ∉ digits := Decimal.colon_notMem_of_word16? hport
  rw [target, hnone, Text.cutLast?_append name hcolon]
  simp [hport]

/-- Only the empty text takes no octets. -/
theorem isEmpty_iff_size (t : Text) : t.isEmpty = true ↔ Utf8.size t = 0 := by
  cases t with
  | nil => exact iff_of_true rfl rfl
  | cons c t =>
    have hpos := c.utf8Size_pos
    have hsize : Utf8.size (c :: t) = c.utf8Size + Utf8.size t := by
      rw [Utf8.size, Utf8.encode, List.flatMap_cons, List.length_append,
        String.length_utf8EncodeChar]
      rfl
    simp
    omega

theorem names_of_target {t : Text} {x : Target} (h : target t = .ok x) :
    ∃ d port, Names t d port := by
  cases ha : SocketAddr.parse? t with
  | some a => exact ⟨_, _, .address ha⟩
  | none =>
    rw [target, ha] at h
    simp only at h
    split at h
    next => cases h
    next name port hcut =>
      obtain ⟨⟨name', digits⟩, hlast, hport⟩ := Option.bind_eq_some_iff.1 hcut
      obtain ⟨port', hword, heq⟩ := Option.map_eq_some_iff.1 hport
      cases heq
      cases Text.eq_append_of_cutLast? hlast
      split at h
      next => cases h
      next hsize =>
        simp only [Bool.or_eq_true, isEmpty_iff_size, decide_eq_true_eq, not_or] at hsize
        exact ⟨_, _, .host ha (by omega) (by omega) hword⟩

/-- An address that is cut off whole is read, with the port behind it. -/
theorem decode?_octets {type : UInt8} {octets : Bytes} {place : Place}
    (h : ∀ rest, Place.cut? type (octets ++ rest) = some (place, rest)) (port : UInt16) :
    Connect.decode? ([5, 1, 0] ++ (type :: octets ++ Word.octets16 port)) =
      some ⟨5, 1, 0, place, port⟩ := by
  have hport := Word.ofOctets16_octets port
  show Connect.decode? (5 :: 1 :: 0 :: type :: (octets ++ Word.octets16 port)) = _
  rw [Connect.decode?, h]
  simp only [Word.octets16, hport]

theorem asks_of_target {t : Text} {x : Target} {d : Destination} {place : Place} {type : UInt8}
    {port : UInt16} (octets : Bytes) (hx : target t = .ok x) (hd : d.At place)
    (hoctets : targetOctets x = type :: octets ++ Word.octets16 port)
    (hcut : ∀ rest, Place.cut? type (octets ++ rest) = some (place, rest)) : Asks t d port := by
  refine ⟨requestOctets x, place, by rw [request, hx]; rfl, ?_, hd⟩
  rw [requestOctets, hoctets]
  exact decode?_octets hcut port

/-- What a target names is what the request for it asks for. -/
theorem Names.asks {t : Text} {d : Destination} {port : UInt16} (h : Names t d port) :
    Asks t d port := by
  cases h with
  | @address _ a ha =>
    have hx := target_of_address ha
    cases a with
    | v4 ip port =>
      refine asks_of_target ip.octets hx (.v4 ip) rfl fun rest => ?_
      have hcut : cutOctets? 4 (ip.octets ++ rest) = some (ip.octets, rest) :=
        cutOctets?_append ip.octets rest
      rw [Place.cut?, hcut]
      rfl
    | v6 ip scope port =>
      refine asks_of_target ip.octets hx (.v6 ip) rfl fun rest => ?_
      have hcut := cutOctets?_append ip.octets rest
      rw [Ipv6.length_octets] at hcut
      rw [Place.cut?, hcut]
      rfl
  | @host name digits _ hnone hpos hsize hport =>
    have hx : target (name ++ ':' :: digits) = .ok (.host name port) := by
      rw [target_of_host hnone hport]
      refine if_neg ?_
      simp only [Bool.or_eq_true, isEmpty_iff_size, decide_eq_true_eq]
      omega
    have hn : (UInt8.ofNat (Utf8.size name)).toNat = Utf8.size name :=
      UInt8.toNat_ofNat_of_lt' (Nat.lt_succ_of_le hsize)
    refine asks_of_target (UInt8.ofNat (Utf8.size name) :: Utf8.encode name) hx (.host hn) rfl
      fun rest => ?_
    have hcut := cutOctets?_append (Utf8.encode name) rest
    rw [← show _ = (Utf8.encode name).length from hn] at hcut
    rw [List.cons_append, Place.cut?, hcut]
    rfl

theorem names_of_request {t : Text} {bs : Bytes} (h : request t = .ok bs) :
    ∃ d port, Names t d port := by
  unfold request at h
  cases hx : target t with
  | error fault =>
    rw [hx] at h
    cases h
  | ok x => exact names_of_target hx

theorem names_iff {t : Text} : (∃ d port, Names t d port) ↔
    (∃ a, SocketAddr.parse? t = some a) ∨ ∃ name digits port, t = name ++ ':' :: digits ∧
      ':' ∉ digits ∧ Decimal.word16? digits = some port ∧ 1 ≤ Utf8.size name ∧
      Utf8.size name ≤ 255 := by
  constructor
  · rintro ⟨d, port, h⟩
    cases h with
    | address ha => exact .inl ⟨_, ha⟩
    | @host name digits _ hnone hpos hsize hport =>
      exact .inr ⟨name, digits, port, rfl, Decimal.colon_notMem_of_word16? hport,
        hport, hpos, hsize⟩
  · rintro (⟨a, ha⟩ | ⟨name, digits, port, rfl, -, hport, hpos, hsize⟩)
    · exact ⟨_, _, .address ha⟩
    · cases ha : SocketAddr.parse? (name ++ ':' :: digits) with
      | some a => exact ⟨_, _, .address ha⟩
      | none => exact ⟨_, _, .host ha hpos hsize hport⟩

/-- A request can be made just for a socket address or a host of 1 to 255 octets with a port behind
the last colon.  What a proxy reads from it is then the destination and the port that the target
names, and targets of one request name the same. -/
theorem request_decodes (t : Text) :
    ((∃ bs, request t = .ok bs) ↔ (∃ a, SocketAddr.parse? t = some a) ∨
      ∃ name digits port, t = name ++ ':' :: digits ∧ ':' ∉ digits ∧
        Decimal.word16? digits = some port ∧ 1 ≤ Utf8.size name ∧ Utf8.size name ≤ 255) ∧
    (∀ bs, request t = .ok bs → ∃ d place port, Names t d port ∧
      Connect.decode? bs = some ⟨5, 1, 0, place, port⟩ ∧ d.At place) ∧
    ∀ t' bs d d' port port', request t = .ok bs → request t' = .ok bs →
      Names t d port → Names t' d' port' → d = d' ∧ port = port' := by
  refine ⟨?_, ?_, ?_⟩
  · rw [← names_iff]
    constructor
    · rintro ⟨bs, hbs⟩
      exact names_of_request hbs
    · rintro ⟨d, port, h⟩
      obtain ⟨bs, place, hbs, -⟩ := h.asks
      exact ⟨bs, hbs⟩
  · intro bs hbs
    obtain ⟨d, port, h⟩ := names_of_request hbs
    obtain ⟨_, place, hb, hdecode, hd⟩ := h.asks
    cases hbs.symm.trans hb
    exact ⟨d, place, port, h, hdecode, hd⟩
  · intro t' bs d d' port port' hbs hbs' h h'
    obtain ⟨_, place, hb, hdecode, hd⟩ := h.asks
    obtain ⟨_, place', hb', hdecode', hd'⟩ := h'.asks
    cases hbs.symm.trans hb
    cases hbs'.symm.trans hb'
    cases hdecode.symm.trans hdecode'
    exact ⟨hd.unique hd', rfl⟩

/-- The request for port 53 at `fe80::1`. -/
def linkLocalRequest : Bytes :=
  [5, 1, 0, 4, 0xfe, 0x80, 0, 0, 0, 0, 0, 0, 0, 0, 0, 0, 0, 0, 0, 1, 0, 53]

/-- A scope and the way in which an address is written leave no trace in a request. -/
theorem request_decodes_link_local :
    request "[fe80::1%2]:53".toList = .ok linkLocalRequest ∧
      request "[FE80:0::0.0.0.1]:053".toList = .ok linkLocalRequest ∧
      ∃ d place port, Names "[fe80::1%2]:53".toList d port ∧
        Names "[FE80:0::0.0.0.1]:053".toList d port ∧
        Connect.decode? linkLocalRequest = some ⟨5, 1, 0, place, port⟩ ∧ d.At place := by
  have hscope : request "[fe80::1%2]:53".toList = .ok linkLocalRequest := rfl
  have hdotted : request "[FE80:0::0.0.0.1]:053".toList = .ok linkLocalRequest := rfl
  obtain ⟨d, place, port, hnames, hdecode, hd⟩ := (request_decodes _).2.1 _ hscope
  obtain ⟨d', _, port', hnames', -, -⟩ := (request_decodes _).2.1 _ hdotted
  obtain ⟨rfl, rfl⟩ := (request_decodes _).2.2 _ _ _ _ _ _ hscope hdotted hnames hnames'
  exact ⟨hscope, hdotted, d, place, port, hnames, hnames', hdecode, hd⟩

end SplitDns.Socks
