import SplitDns.Proofs.AddressText

/-!
# Addresses with a port in text

A socket address is read back from its text (`SocketAddr.parse?_text`).  What tells the forms of an
address apart is the number of colons: none in an IPv4 address, one in a host or an IPv4 address
with its port, and two or more in an IPv6 address, which a socket address puts in brackets.  So no
text is read both as an address and as a socket address (`SocketAddr.parse?_of_ip`).
-/

namespace SplitDns

/-! ## Numbers -/

namespace Digits

variable {base : Nat}

theorem isSome_value?_of_readFrom {n m : Nat} {t : Text} (h : readFrom base n t = some m) :
    ∀ c ∈ t, (value? c).isSome := by
  induction t generalizing n with
  | nil => simp
  | cons c t ih =>
    unfold readFrom at h
    split at h
    next d hd =>
      split at h
      next => exact List.forall_mem_cons.2 ⟨by simp [hd], ih h⟩
      next => cases h
    next => cases h

/-- A text that is read as a number consists of digits. -/
theorem isSome_value?_of_read? {n : Nat} {t : Text} (h : read? base t = some n) :
    ∀ c ∈ t, (value? c).isSome := by
  unfold read? at h
  split at h
  · cases h
  · exact isSome_value?_of_readFrom h

theorem notMem_of_isSome {t : Text} (h : ∀ c ∈ t, (value? c).isSome) {c : Char}
    (hc : value? c = none) : c ∉ t := by
  intro hmem
  have hdigit := h c hmem
  rw [hc] at hdigit
  cases hdigit

end Digits

namespace Decimal

variable {bound : Nat}

theorem isSome_value?_of_read? {n : Nat} {t : Text} (h : read? bound t = some n) :
    ∀ c ∈ t, (Digits.value? c).isSome :=
  Digits.isSome_value?_of_read? (Option.filter_eq_some_iff.1 h).1

theorem read?_text {n : Nat} (h : n ≤ bound) : read? bound (text n) = some n := by
  rw [read?, text, Digits.read?_text (by decide) (by decide)]
  simp [h]

/-- Only a plus sign may stand beside the digits of a number on its own. -/
theorem of_mem_readAlone? {n : Nat} {t : Text} (h : readAlone? bound t = some n) {c : Char}
    (hc : c ∈ t) : c = '+' ∨ (Digits.value? c).isSome := by
  unfold readAlone? at h
  split at h
  next r =>
    rcases List.mem_cons.1 hc with rfl | hc
    · exact .inl rfl
    · exact .inr (isSome_value?_of_read? h c hc)
  next => exact .inr (isSome_value?_of_read? h c hc)

theorem readAlone?_text {n : Nat} (h : n ≤ bound) : readAlone? bound (text n) = some n := by
  have hplus : '+' ∉ text n := Digits.notMem_of_isSome (isSome_value?_of_read? (read?_text h)) rfl
  unfold readAlone?
  split
  next r heq => simp [heq] at hplus
  next => exact read?_text h

theorem word16?_text (w : UInt16) : word16? (text w.toNat) = some w := by
  rw [word16?, readAlone?_text (Nat.le_of_lt_succ w.toNat_lt), Option.map_some, UInt16.ofNat_toNat]

theorem colon_notMem_of_word16? {w : UInt16} {t : Text} (h : word16? t = some w) : ':' ∉ t := by
  intro hc
  obtain ⟨n, hn, -⟩ := Option.map_eq_some_iff.1 h
  have hchar := of_mem_readAlone? hn hc
  revert hchar
  decide

end Decimal

/-! ## The characters of addresses -/

namespace IpAddr

/-- The characters that addresses are written with. -/
def isMark (c : Char) : Bool :=
  c == ':' || c == '.' || (Digits.value? c).isSome

theorem isMark_of_isSome {c : Char} (h : (Digits.value? c).isSome) : isMark c = true := by
  rw [isMark, h, Bool.or_true]

theorem notMem_of_isMark {t : Text} (h : ∀ c ∈ t, isMark c = true) {c : Char}
    (hc : isMark c = false) : c ∉ t := by
  intro hmem
  rw [h c hmem] at hc
  cases hc

end IpAddr

namespace Ipv4

theorem isSome_value?_of_octet? {t : Text} {o : UInt8} (h : octet? t = some o) :
    ∀ c ∈ t, (Digits.value? c).isSome := by
  unfold octet? at h
  split at h
  next =>
    obtain ⟨n, hn, -⟩ := Option.map_eq_some_iff.1 h
    exact Decimal.isSome_value?_of_read? hn
  next => cases h

theorem of_mem_parse? {t : Text} {ip : Ipv4} (h : parse? t = some ip) {c : Char} (hc : c ∈ t) :
    c = '.' ∨ (Digits.value? c).isSome := by
  obtain ⟨os, hos, -⟩ := Option.bind_eq_some_iff.1 h
  rcases Text.mem_split (p := (· == '.')) hc with hdot | ⟨piece, hpiece, hmem⟩
  · exact .inl (beq_iff_eq.1 hdot)
  · obtain ⟨o, ho⟩ := (Text.reads_of_mapM hos).2 piece hpiece
    exact .inr (isSome_value?_of_octet? ho c hmem)

theorem isMark_of_parse? {t : Text} {ip : Ipv4} (h : parse? t = some ip) :
    ∀ c ∈ t, IpAddr.isMark c = true := by
  intro c hc
  rcases of_mem_parse? h hc with rfl | hdigit
  · rfl
  · exact IpAddr.isMark_of_isSome hdigit

theorem colon_notMem_of_parse? {t : Text} {ip : Ipv4} (h : parse? t = some ip) : ':' ∉ t := by
  intro hc
  have hmark := of_mem_parse? h hc
  revert hmark
  decide

end Ipv4

namespace Ipv6

/-! ### Groups -/

theorem isSome_value?_of_group? {t : Text} {g : UInt16} (h : group? t = some g) :
    ∀ c ∈ t, (Digits.value? c).isSome := by
  unfold group? at h
  split at h
  next =>
    obtain ⟨n, hn, -⟩ := Option.map_eq_some_iff.1 h
    exact Digits.isSome_value?_of_read? hn
  next => cases h

theorem isMark_of_plainGroups? {t : Text} {gs : List UInt16} (h : plainGroups? t = some gs) :
    ∀ c ∈ t, IpAddr.isMark c = true := by
  intro c hc
  rcases Text.mem_split (p := (· == ':')) hc with hcolon | ⟨piece, hpiece, hmem⟩
  · rw [beq_iff_eq.1 hcolon]
    rfl
  · obtain ⟨g, hg⟩ := (Text.reads_of_mapM h).2 piece hpiece
    exact IpAddr.isMark_of_isSome (isSome_value?_of_group? hg c hmem)

/-- There is a colon between two groups. -/
theorem length_of_plainGroups? {t : Text} {gs : List UInt16} (h : plainGroups? t = some gs) :
    gs.length = t.count ':' + 1 := by
  rw [(Text.reads_of_mapM h).1, Text.length_split]
  rfl

/-- What a reader of groups reads are groups that colons part, of which the last two may be in
dotted form. -/
theorem of_groups? {t : Text} {gs : List UInt16} (h : groups? t = some gs) :
    (∀ c ∈ t, IpAddr.isMark c = true) ∧ gs.length ≤ t.count ':' + 2 := by
  have hplain : plainGroups? t = some gs →
      (∀ c ∈ t, IpAddr.isMark c = true) ∧ gs.length ≤ t.count ':' + 2 := by
    intro hgs
    refine ⟨isMark_of_plainGroups? hgs, ?_⟩
    rw [length_of_plainGroups? hgs]
    omega
  unfold groups? at h
  split at h
  next =>
    cases hip : Ipv4.parse? t with
    | none =>
      rw [hip] at h
      exact hplain h
    | some ip =>
      rw [hip] at h
      cases h
      exact ⟨Ipv4.isMark_of_parse? hip, by simp [groupsOfIpv4]⟩
  next head last hcut =>
    split at h
    next ip hip =>
      obtain ⟨hs, hhs, rfl⟩ := Option.map_eq_some_iff.1 h
      have hlength := length_of_plainGroups? hhs
      rw [Text.eq_append_of_cutLast? hcut]
      constructor
      · intro c hc
        rcases List.mem_append.1 hc with hc | hc
        · exact isMark_of_plainGroups? hhs c hc
        · rcases List.mem_cons.1 hc with rfl | hc
          · rfl
          · exact Ipv4.isMark_of_parse? hip c hc
      · simp only [List.length_append, List.count_append, List.count_cons_self, groupsOfIpv4,
          List.length_cons, List.length_nil]
        omega
    next => exact hplain h

/-! ### Addresses -/

theorem eq_append_of_cutGap? {t left right : Text} (h : cutGap? t = some (left, right)) :
    t = left ++ ':' :: ':' :: right := by
  fun_induction cutGap? t generalizing left with
  | case1 r =>
    cases h
    rfl
  | case2 c r _ ih =>
    obtain ⟨⟨a, b⟩, hr, hp⟩ := Option.map_eq_some_iff.1 h
    cases hp
    rw [ih hr]
    rfl
  | case3 => cases h

theorem isMark_of_side? {read : Text → Option (List UInt16)} {t : Text} {gs : List UInt16}
    (hread : ∀ gs, read t = some gs → ∀ c ∈ t, IpAddr.isMark c = true)
    (h : side? read t = some gs) : ∀ c ∈ t, IpAddr.isMark c = true := by
  unfold side? at h
  split at h
  next hempty => simp [List.isEmpty_iff.1 hempty]
  next => exact hread gs h

theorem of_parse? {t : Text} {ip : Ipv6} (h : parse? t = some ip) :
    (∀ c ∈ t, IpAddr.isMark c = true) ∧ 2 ≤ t.count ':' := by
  unfold parse? at h
  split at h
  next =>
    obtain ⟨gs, hgs, h8⟩ := Option.bind_eq_some_iff.1 h
    obtain ⟨hmark, hlength⟩ := of_groups? hgs
    unfold ofGroups? at h8
    split at h8
    next hgs8 => exact ⟨hmark, by omega⟩
    next => cases h8
  next left right hcut =>
    simp only [Option.bind_eq_bind, Option.bind_eq_some_iff] at h
    obtain ⟨head, hhead, tail, htail, -⟩ := h
    rw [eq_append_of_cutGap? hcut]
    constructor
    · intro c hc
      rcases List.mem_append.1 hc with hc | hc
      · exact isMark_of_side? (fun _ => isMark_of_plainGroups?) hhead c hc
      · rcases List.mem_cons.1 hc with rfl | hc
        · rfl
        rcases List.mem_cons.1 hc with rfl | hc
        · rfl
        · exact isMark_of_side? (fun _ hgs => (of_groups? hgs).1) htail c hc
    · simp only [List.count_append, List.count_cons_self]
      omega

end Ipv6

namespace IpAddr

theorem isMark_of_parse? {t : Text} {ip : IpAddr} (h : parse? t = some ip) :
    ∀ c ∈ t, isMark c = true := by
  unfold parse? at h
  split at h
  next ip hip => exact Ipv4.isMark_of_parse? hip
  next =>
    obtain ⟨ip, hip, -⟩ := Option.map_eq_some_iff.1 h
    exact (Ipv6.of_parse? hip).1

theorem ipv4_eq_none {t : Text} (h : parse? t = none) : Ipv4.parse? t = none := by
  unfold parse? at h
  split at h
  next => cases h
  next hv4 => exact hv4

/-- No address has one colon. -/
theorem count_of_parse? {t : Text} {ip : IpAddr} (h : parse? t = some ip) :
    t.count ':' = 0 ∨ 2 ≤ t.count ':' := by
  unfold parse? at h
  split at h
  next ip hip => exact .inl (List.count_eq_zero.2 (Ipv4.colon_notMem_of_parse? hip))
  next =>
    obtain ⟨ip, hip, -⟩ := Option.map_eq_some_iff.1 h
    exact .inr (Ipv6.of_parse? hip).2

theorem bracket_notMem_of_parse? {t : Text} {ip : IpAddr} (h : parse? t = some ip) :
    '[' ∉ t ∧ ']' ∉ t :=
  ⟨notMem_of_isMark (isMark_of_parse? h) rfl, notMem_of_isMark (isMark_of_parse? h) rfl⟩

theorem parse?_text (ip : IpAddr) : parse? ip.text = some ip := by
  cases ip with
  | v4 ip => rw [text, parse?, Ipv4.parse?_text]
  | v6 ip =>
    have hv4 : Ipv4.parse? ip.text = none := by
      cases h : Ipv4.parse? ip.text with
      | none => rfl
      | some v4 =>
        have htwo := (Ipv6.of_parse? (Ipv6.parse?_text ip)).2
        have hcolon := List.count_eq_zero.2 (Ipv4.colon_notMem_of_parse? h)
        omega
    rw [text, parse?, hv4, Ipv6.parse?_text]
    rfl

end IpAddr

/-! ## Socket addresses -/

namespace SocketAddr

theorem port?_text (w : UInt16) : port? (Decimal.text w.toNat) = some w := by
  rw [port?, Decimal.read?_text (Nat.le_of_lt_succ w.toNat_lt), Option.map_some,
    UInt16.ofNat_toNat]

theorem scope?_text (w : UInt32) : scope? (Decimal.text w.toNat) = some w := by
  rw [scope?, Decimal.read?_text (Nat.le_of_lt_succ w.toNat_lt), Option.map_some,
    UInt32.ofNat_toNat]

theorem isSome_value?_of_port? {t : Text} {w : UInt16} (h : port? t = some w) :
    ∀ c ∈ t, (Digits.value? c).isSome := by
  obtain ⟨n, hn, -⟩ := Option.map_eq_some_iff.1 h
  exact Decimal.isSome_value?_of_read? hn

theorem colon_notMem_of_port? {t : Text} {w : UInt16} (h : port? t = some w) : ':' ∉ t :=
  Digits.notMem_of_isSome (isSome_value?_of_port? h) rfl

/-- In front of its brackets' end an address in brackets is read up to there. -/
theorem parse?_bracket {inside : Text} (h : ']' ∉ inside) (rest : Text) :
    parse? ('[' :: inside ++ ']' :: rest) = (scoped? inside).bind fun (ip, scope) =>
      match rest with
      | ':' :: digits => (port? digits).map (v6 ip scope)
      | _ => none := by
  rw [List.cons_append, parse?, Text.cutFirst?_append h]
  rfl

/-- Behind a bracket in front there are a closing bracket and a port. -/
theorem eq_bracket_of_parse? {r : Text} {a : SocketAddr} (h : parse? ('[' :: r) = some a) :
    ∃ inside digits port, ']' ∉ inside ∧ (scoped? inside).isSome ∧ port? digits = some port ∧
      r = inside ++ ']' :: ':' :: digits := by
  obtain ⟨⟨inside, rest⟩, hcut, hrest⟩ := Option.bind_eq_some_iff.1 h
  obtain ⟨⟨ip, scope⟩, hscoped, hport⟩ := Option.bind_eq_some_iff.1 hrest
  obtain ⟨hr, hin⟩ := Text.eq_append_of_cutFirst? hcut
  dsimp only at hport
  split at hport
  next digits =>
    obtain ⟨port, hport, -⟩ := Option.map_eq_some_iff.1 hport
    exact ⟨inside, digits, port, hin, by rw [hscoped]; rfl, hport, hr⟩
  next => cases hport

/-- Without a bracket in front there is an IPv4 address before the last colon. -/
theorem parse?_of_head {t : Text} (h : t.head? ≠ some '[') :
    parse? t = (Text.cutLast? ':' t).bind fun (host, digits) =>
      (Ipv4.parse? host).bind fun ip => (port? digits).bind fun port => some (v4 ip port) := by
  unfold parse?
  split
  next r => exact absurd rfl h
  next => rfl

theorem count_of_parse? {t : Text} {a : SocketAddr} (hhead : t.head? ≠ some '[')
    (h : parse? t = some a) : t.count ':' = 1 := by
  rw [parse?_of_head hhead] at h
  obtain ⟨⟨host, digits⟩, hcut, h⟩ := Option.bind_eq_some_iff.1 h
  obtain ⟨ip, hip, h⟩ := Option.bind_eq_some_iff.1 h
  obtain ⟨port, hport, -⟩ := Option.bind_eq_some_iff.1 h
  rw [Text.eq_append_of_cutLast? hcut, List.count_append, List.count_cons_self,
    List.count_eq_zero.2 (Ipv4.colon_notMem_of_parse? hip),
    List.count_eq_zero.2 (colon_notMem_of_port? hport)]

/-- An address without a port is no socket address. -/
theorem parse?_of_ip {t : Text} {ip : IpAddr} (h : IpAddr.parse? t = some ip) :
    parse? t = none := by
  have hhead : t.head? ≠ some '[' := by
    intro hhead
    exact (IpAddr.bracket_notMem_of_parse? h).1 (List.mem_of_head? hhead)
  cases ha : parse? t with
  | none => rfl
  | some a =>
    have hone := count_of_parse? hhead ha
    have hcount := IpAddr.count_of_parse? h
    omega

theorem scoped?_of_ip {t : Text} {ip : Ipv6} (h : Ipv6.parse? t = some ip) :
    scoped? t = some (ip, 0) := by
  have hpercent : '%' ∉ t := IpAddr.notMem_of_isMark (Ipv6.of_parse? h).1 rfl
  rw [scoped?, Text.cutFirst?_eq_none hpercent, h]
  rfl

/-- A scope that is not zero is read back. -/
theorem scoped?_text (ip : Ipv6) (scope : UInt32) :
    scoped? (ip.text ++ '%' :: Decimal.text scope.toNat) = some (ip, scope) := by
  have hpercent : '%' ∉ ip.text :=
    IpAddr.notMem_of_isMark (Ipv6.of_parse? (Ipv6.parse?_text ip)).1 rfl
  rw [scoped?, Text.cutFirst?_append hpercent]
  simp only [Ipv6.parse?_text, scope?_text]
  rfl

/-- There is no bracket in a scope. -/
theorem bracket_notMem (ip : Ipv6) (scope : UInt32) :
    ']' ∉ ip.text ∧ ']' ∉ Decimal.text scope.toNat :=
  ⟨IpAddr.notMem_of_isMark (Ipv6.of_parse? (Ipv6.parse?_text ip)).1 rfl,
    Digits.notMem_of_isSome (Decimal.isSome_value?_of_read?
      (Decimal.read?_text (Nat.le_of_lt_succ scope.toNat_lt))) rfl⟩

theorem parse?_text (a : SocketAddr) : parse? a.text = some a := by
  cases a with
  | v4 ip port =>
    have hport : ':' ∉ Decimal.text port.toNat := colon_notMem_of_port? (port?_text port)
    have hhead : (ip.text ++ ':' :: Decimal.text port.toNat).head? ≠ some '[' := by
      have hip : '[' ∉ ip.text :=
        IpAddr.notMem_of_isMark (Ipv4.isMark_of_parse? (Ipv4.parse?_text ip)) rfl
      have hdigits : '[' ∉ Decimal.text port.toNat :=
        Digits.notMem_of_isSome (isSome_value?_of_port? (port?_text port)) rfl
      intro hhead
      simpa [hip, hdigits] using List.mem_of_head? hhead
    rw [text, parse?_of_head hhead, Text.cutLast?_append _ hport]
    simp [Ipv4.parse?_text, port?_text]
  | v6 ip scope port =>
    obtain ⟨hip, hscope⟩ := bracket_notMem ip scope
    by_cases hzero : scope = 0
    · have hread := parse?_bracket hip (':' :: Decimal.text port.toNat)
      rw [scoped?_of_ip (Ipv6.parse?_text ip)] at hread
      simpa [text, hzero, port?_text] using hread
    · have hinside : ']' ∉ ip.text ++ '%' :: Decimal.text scope.toNat := by simp [hip, hscope]
      have hread := parse?_bracket hinside (':' :: Decimal.text port.toNat)
      rw [scoped?_text] at hread
      simpa [text, hzero, port?_text] using hread

end SocketAddr

end SplitDns
