import SplitDns.Proofs.AddressText
import SplitDns.Proofs.Effects
import SplitDns.Proofs.HostsFile
import SplitDns.Proofs.NameReading

/-!
# Answers from hosts tables

A request for the addresses of a name is answered with the first address of the asked family that
the first table with such an address holds, and it goes on as if there were no tables when none
has one (`Resolver.execute_of_tables`).  On the way the address is written into the text of a
record, from which it is read back (`HostRecord.parse_recordText`).
-/

namespace SplitDns

/-! ## Addresses as data -/

/-- The number by which questions ask for a family. -/
def Family.type : Family → UInt16
  | v4 => RecordType.a
  | v6 => RecordType.aaaa

theorem Family.ofType?_eq_some_iff {type : UInt16} {family : Family} :
    ofType? type = some family ↔ type = family.type := by
  unfold ofType?
  cases family <;> split_ifs <;> simp_all [Family.type, RecordType.a, RecordType.aaaa]

/-- The text of an address consists of hexadecimal digits, colons and dots. -/
theorem Ipv6.isBlank_of_mem_text {ip : Ipv6} {c : Char} (h : c ∈ ip.text) :
    Text.isBlank c = false := by
  have hlead : ∀ c ∈ "::ffff:".toList, Text.isBlank c = false := Text.not_blank_of_all (by decide)
  unfold Ipv6.text at h
  split at h
  · rcases List.mem_append.1 h with h | h
    · exact hlead c h
    · exact (Ipv4.ne_of_mem_text h).2
  · simp only at h
    split at h
    · simp only [List.mem_append] at h
      rcases h with (h | h) | h
      · exact (ne_of_mem_groupsText h).2
      · exact hlead c (List.mem_append_left _ h)
      · exact (ne_of_mem_groupsText h).2
    · exact (ne_of_mem_groupsText h).2

namespace IpAddr

def recordData : IpAddr → RecordData
  | v4 ip => .ipv4 ip
  | v6 ip => .ipv6 ip

theorem isBlank_of_mem_text (ip : IpAddr) : ∀ c ∈ ip.text, Text.isBlank c = false := by
  cases ip with
  | v4 ip => exact fun c hc => (Ipv4.ne_of_mem_text hc).2
  | v6 ip => exact fun c hc => Ipv6.isBlank_of_mem_text hc

/-- The empty text is read as no address. -/
theorem text_ne_nil (ip : IpAddr) : ip.text ≠ [] := by
  intro h
  cases ip with
  | v4 ip =>
    have hread := Ipv4.parse?_text ip
    rw [show ip.text = [] from h] at hread
    exact absurd hread (by simp [Ipv4.parse?_eq_none])
  | v6 ip =>
    have hread := Ipv6.parse?_text ip
    have hnil : Ipv6.parse? [] = none := by decide
    rw [show ip.text = [] from h, hnil] at hread
    cases hread

end IpAddr

/-! ## Texts of records -/

namespace HostRecord

theorem data_text {family : Family} {ip : IpAddr} (h : family.has ip = true) :
    data family.text ip.text = .ok (family.type, ip.recordData) := by
  cases family <;> cases ip <;> cases h
  case v4.v4 ip =>
    have hip : Ipv4.parse? (IpAddr.v4 ip).text = some ip := Ipv4.parse?_text ip
    rw [data, if_pos (by decide), hip]
    rfl
  case v6.v6 ip =>
    have hip : Ipv6.parse? (IpAddr.v6 ip).text = some ip := Ipv6.parse?_text ip
    rw [data, if_neg (by decide), if_pos (by decide), hip]
    rfl

theorem words_recordText {name : Text} (hblank : ∀ c ∈ name, Text.isBlank c = false)
    (hne : name ≠ []) (family : Family) (ip : IpAddr) :
    Text.words (HostsTable.recordText name family ip) =
      [name, Decimal.text HostsTable.ttl, "IN".toList, family.text, ip.text] := by
  have hpieces : ∀ piece ∈ [name, Decimal.text HostsTable.ttl, "IN".toList, family.text, ip.text],
      piece ≠ [] ∧ ∀ c ∈ piece, Text.isBlank c = false := by
    intro piece hpiece
    simp only [List.mem_cons, List.not_mem_nil, or_false] at hpiece
    rcases hpiece with rfl | rfl | rfl | rfl | rfl
    · exact ⟨hne, hblank⟩
    · rw [HostsTable.text_ttl]
      exact ⟨by decide, Text.not_blank_of_all (by decide)⟩
    · exact ⟨by decide, Text.not_blank_of_all (by decide)⟩
    · cases family <;> exact ⟨by decide, Text.not_blank_of_all (by decide)⟩
    · exact ⟨ip.text_ne_nil, ip.isBlank_of_mem_text⟩
  rw [Text.words, HostsTable.recordText,
    Text.split_join rfl (by simp) fun piece hpiece => (hpieces piece hpiece).2]
  exact List.filter_eq_self.2 fun piece hpiece => by simp [(hpieces piece hpiece).1]

/-- An address that is written into the text of a record is read back from it. -/
theorem parse_recordText {name : Text} (hblank : ∀ c ∈ name, Text.isBlank c = false)
    (hne : name ≠ []) {owner : Name} (howner : Name.parse? (closed name) = some owner)
    {family : Family} {ip : IpAddr} (hip : family.has ip = true) :
    parse (HostsTable.recordText name family ip) =
      .ok ⟨owner, family.type, inClass, 60, ip.recordData⟩ := by
  have httl : Decimal.word32? (Decimal.text HostsTable.ttl) = some 60 := by
    rw [HostsTable.text_ttl]
    decide
  rw [parse, words_recordText hblank hne]
  simp only [httl, howner, data_text hip]
  rfl

end HostRecord

/-! ## Tables -/

namespace HostsTable

/-- The tables that come of entering addresses. -/
inductive Built : HostsTable → Prop
  | empty : Built empty
  | insert {t : HostsTable} (name : Text) (ip : IpAddr) (h : Built t) : Built (t.insert name ip)

theorem Built.addLine {t : HostsTable} (line : Text) (h : Built t) : Built (t.addLine line) := by
  unfold HostsTable.addLine
  split
  · exact h
  · exact List.foldlRecOn (motive := Built) _ _ h fun _ ht name _ => ht.insert name _

/-- Tables are built when they are read from files, and when they are made of settings. -/
theorem built_ofText (text : Text) : Built (ofText text) :=
  List.foldlRecOn (motive := Built) _ _ .empty fun _ ht line _ => ht.addLine line

theorem built_ofPairs (pairs : List (Text × Text)) : Built (ofPairs pairs) := by
  refine List.foldlRecOn (motive := Built) _ _ .empty fun t ht p _ => ?_
  obtain ⟨name, ip⟩ := p
  show Built ((IpAddr.parse? (Text.trim ip)).elim t (t.insert name))
  cases IpAddr.parse? (Text.trim ip) with
  | none => exact ht
  | some ip => exact ht.insert name ip

/-- No address is entered without a name. -/
theorem Built.nil_notMem_names {t : HostsTable} (h : Built t) : [] ∉ t.names := by
  induction h with
  | empty => exact List.not_mem_nil
  | @insert t name ip h ih =>
    rw [mem_names_insert]
    exact fun hmem => hmem.elim ih fun hk => hk.1 rfl

theorem Built.lookup?_eq_none {t : HostsTable} (h : Built t) {name : Text} {family : Family}
    (hkey : key name = []) : t.lookup? name family = none := by
  have hnone : t.entries.lookup [] = none := List.lookup_eq_none_iff.2 fun p hp => by
    simpa using fun hnil => h.nil_notMem_names (List.mem_map.2 ⟨p, hp, hnil⟩)
  rw [lookup?, addresses?, hkey, hnone]
  rfl

/-- The addresses of a family that a table holds for a name, in the order of their entry. -/
def held (t : HostsTable) (name : Text) (family : Family) : List IpAddr :=
  ((t.addresses? name).getD []).filter family.has

theorem lookup?_eq_head? (t : HostsTable) (name : Text) (family : Family) :
    t.lookup? name family = (t.held name family).head? := by
  rw [held, List.head?_filter, lookup?]
  cases t.addresses? name <;> rfl

theorem has_of_lookup? {t : HostsTable} {name : Text} {family : Family} {ip : IpAddr}
    (h : t.lookup? name family = some ip) : family.has ip = true := by
  obtain ⟨ips, -, hip⟩ := Option.bind_eq_some_iff.1 h
  exact List.find?_some hip

end HostsTable

/-! ## Names that tables are asked for -/

namespace Resolver

/-- The text of such a name is closed by one dot, and tables are asked for it without the dot and
with it. -/
theorem hostsNames_text {n : Name} (h : ∀ l ∈ n.labels, Name.isHostLabel l = true)
    (hne : n.labels ≠ []) :
    ∃ t : Text, t ≠ [] ∧ t.getLast? ≠ some '.' ∧ n.text = t ++ ['.'] ∧
      hostsNames n.text = [t, t ++ ['.']] := by
  obtain ⟨front, l, hl⟩ := (List.eq_nil_or_concat' n.labels).resolve_left hne
  have hmem : l ∈ n.labels := by simp [hl]
  have hplain : Name.plain l ≠ [] := by simpa [Name.plain] using (n.fits.1 l hmem).1
  have htext : n.text = (Name.dotted front ++ Name.plain l) ++ ['.'] := by
    rw [Name.text_of_ne_nil hne, hl, List.flatMap_append, List.flatMap_singleton,
      Name.labelText_of_isHostLabel (h l hmem), List.append_assoc]
    rfl
  refine ⟨Name.dotted front ++ Name.plain l, by simp [hplain], ?_, htext, ?_⟩
  · rw [List.getLast?_append_of_ne_nil _ hplain]
    exact fun hlast => (Name.free_of_mem_plain (h l hmem) '.' (List.mem_of_getLast? hlast)).1 rfl
  · rw [htext, hostsNames, Text.before?_append]
    rfl

theorem mem_hostsNames {n : Name} (h : ∀ l ∈ n.labels, Name.isHostLabel l = true)
    (hne : n.labels ≠ []) {name : Text} (hname : name ∈ hostsNames n.text) :
    name ≠ [] ∧ (∀ c ∈ name, Text.isBlank c = false) ∧ HostRecord.closed name = n.text ∧
      HostsTable.key name = HostsTable.key n.text := by
  obtain ⟨t, ht, hlast, htext, hnames⟩ := hostsNames_text h hne
  have hblank : ∀ c ∈ t ++ ['.'], Text.isBlank c = false := by
    rw [← htext]
    exact isBlank_of_mem_text n
  have hopen : ∀ c ∈ t, Text.isBlank c = false := fun c hc => hblank c (List.mem_append_left _ hc)
  rw [hnames] at hname
  rw [htext]
  rcases List.mem_cons.1 hname with rfl | hname
  · refine ⟨ht, hopen, if_neg hlast, ?_⟩
    rw [HostsTable.key, HostsTable.key, Text.trim_eq_self hopen, Text.trim_eq_self hblank,
      Domain.canonical, Domain.canonical, Domain.stripDots_append (by simp)]
  · rw [List.mem_singleton.1 hname]
    exact ⟨by simp, hblank, if_pos (by simp), rfl⟩

/-- All names that tables are asked for are looked up in the same place. -/
theorem key_of_mem_hostsNames {n : Name} (h : ∀ l ∈ n.labels, Name.isHostLabel l = true)
    {name : Text} (hname : name ∈ hostsNames n.text) :
    HostsTable.key name = HostsTable.key n.text := by
  by_cases hroot : n.labels = []
  · rw [Name.text_of_nil hroot] at hname ⊢
    rcases List.mem_cons.1 hname with rfl | hname
    · rfl
    · rw [List.mem_singleton.1 hname]
  · exact (mem_hostsNames h hroot hname).2.2.2

variable {tables : List HostsTable} {n : Name} {family : Family}

theorem lookup?_of_mem_hostsNames (t : HostsTable)
    (h : ∀ l ∈ n.labels, Name.isHostLabel l = true) {name : Text}
    (hname : name ∈ hostsNames n.text) : t.lookup? name family = t.lookup? n.text family := by
  rw [HostsTable.lookup?, HostsTable.addresses?, key_of_mem_hostsNames h hname]
  rfl

/-- What tables give is the first address that one of them has, as the text of a record. -/
theorem hostsText?_of_tables (h : ∀ l ∈ n.labels, Name.isHostLabel l = true) :
    hostsText? (tables.map HostsTable.source) n.text family =
      (tables.findSome? (·.lookup? n.text family)).map
        (HostsTable.recordText ((Text.before? ['.'] n.text).getD n.text) family) := by
  rw [hostsText?, List.findSome?_map, List.map_findSome?]
  congr 1
  funext t
  have hfirst := @lookup?_of_mem_hostsNames n family t h _ (List.mem_cons_self ..)
  simp only [Function.comp_apply, hostsNames, List.findSome?_cons, HostsTable.source,
    HostsTable.record?, hfirst]
  -- The name with the dot is tried after the one without, but it cannot find more.
  cases t.lookup? n.text family <;> rfl

/-- The text of a record for a name that tables are asked for is read back as a record of the name
that the question asks for. -/
theorem parse_of_lookup? {t : HostsTable} (ht : t.Built)
    (h : ∀ l ∈ n.labels, Name.isHostLabel l = true)
    (hkeeps : ∀ l ∈ n.labels, Name.isAce l = true → Name.Keeps l) {name : Text}
    (hname : name ∈ hostsNames n.text) {ip : IpAddr} (hip : t.lookup? name family = some ip) :
    ∃ owner, owner.lower = n.lower ∧ HostRecord.parse (HostsTable.recordText name family ip) =
      .ok ⟨owner, family.type, inClass, 60, ip.recordData⟩ := by
  -- The root is looked up under the empty key, under which nothing is entered.
  have hroot : n.labels ≠ [] := by
    intro hroot
    have hkey := key_of_mem_hostsNames h hname
    rw [Name.text_of_nil hroot] at hkey
    have hnone : t.lookup? name family = none := ht.lookup?_eq_none (hkey.trans (by decide))
    rw [hip] at hnone
    cases hnone
  obtain ⟨hne, hblank, hclosed, -⟩ := mem_hostsNames h hroot hname
  obtain ⟨owner, howner, hlower⟩ := Name.parse?_text h fun l hl => by
    by_cases hace : Name.isAce l = true
    · exact hkeeps l hl hace
    · exact Name.keeps_of_not_isAce (n.fits.1 l hl).1 (h l hl) (by simpa using hace)
  refine ⟨owner, hlower, HostRecord.parse_recordText hblank hne ?_ (HostsTable.has_of_lookup? hip)⟩
  rw [hclosed, howner]

/-- The first table that has an address of the family decides. -/
theorem findSome?_held {before : List HostsTable} {t : HostsTable} (after : List HostsTable)
    {name : Text} {ip : IpAddr} {ips : List IpAddr}
    (hbefore : ∀ other ∈ before, other.held name family = [])
    (ht : t.held name family = ip :: ips) :
    (before ++ t :: after).findSome? (·.lookup? name family) = some ip := by
  have hnone : before.findSome? (·.lookup? name family) = none :=
    List.findSome?_eq_none_iff.2 fun other hother => by
      rw [HostsTable.lookup?_eq_head?, hbefore other hother]
      rfl
  rw [List.findSome?_append, hnone, Option.none_or, List.findSome?_cons,
    HostsTable.lookup?_eq_head?, ht]
  rfl

variable {σ : Type}

/-- A question for the addresses of a name is answered with the first address of the family in the
first table that has one, in one record that belongs to the name; when no table has one nothing
comes of the tables.  Every text of a record that a table gives is read back with its address.  What
is assumed of labels that start with `xn--` is that they are read as themselves. -/
theorem execute_of_tables (r : Resolver σ) (env : Surroundings σ) (id : UInt16)
    (request : Message) (w : World σ) {q : Question} {rest : List Question}
    (hr : r.hosts = tables.map HostsTable.source) (hbuilt : ∀ t ∈ tables, t.Built)
    (hq : request.questions = q :: rest) (hfamily : Family.ofType? q.type = some family)
    (hlabels : ∀ l ∈ q.name.labels, Name.isHostLabel l = true)
    (hkeeps : ∀ l ∈ q.name.labels, Name.isAce l = true → Name.Keeps l)
    (hguard : Domain.isLooping q.name.text = false) :
    (∀ before t after ip ips, tables = before ++ t :: after →
      (∀ other ∈ before, other.held q.name.text family = []) →
      t.held q.name.text family = ip :: ips →
      (r.execute env id request w).1 = .ok .hosts ∧
        ∃ reply taken record,
          (r.execute env id request w).2.events = w.events ++ [.wrote reply taken] ∧
          reply.answers = [record] ∧ record.name.lower = q.name.lower ∧
          record.dnsClass = inClass ∧ record.ttl = 60 ∧ record.type = q.type ∧
          record.data = ip.recordData) ∧
    ((∀ t ∈ tables, t.held q.name.text family = []) →
      r.hostsRecord? q = .ok none ∧ r.run id request = r.lookUp id request q) ∧
    ∀ t ∈ tables, ∀ name ∈ hostsNames q.name.text, ∀ text, t.record? name family = some text →
      ∃ ip record, t.lookup? name family = some ip ∧ HostRecord.parse text = .ok record ∧
        record.data = ip.recordData := by
  have hpasses : Passes request q := ⟨by rw [hq]; rfl, hguard⟩
  refine ⟨fun before t after ip ips hsplit hbefore ht => ?_, fun hnone => ?_,
    fun t ht name hname text htext => ?_⟩
  · have hfind := findSome?_held after hbefore ht
    rw [← hsplit] at hfind
    have hlookup : t.lookup? q.name.text family = some ip := by
      rw [HostsTable.lookup?_eq_head?, ht]
      rfl
    obtain ⟨owner, howner, hparse⟩ := parse_of_lookup? (hbuilt t (by simp [hsplit])) hlabels hkeeps
      (List.mem_cons_self ..) ((lookup?_of_mem_hostsNames t hlabels (List.mem_cons_self ..)).trans
        hlookup)
    have hrecord : r.hostsRecord? q =
        .ok (some ⟨owner, family.type, inClass, 60, ip.recordData⟩) := by
      rw [hostsRecord?, hfamily, Option.bind_some, hr, hostsText?_of_tables hlabels, hfind,
        Option.map_some]
      simp only [hparse]
    rw [execute, run_of_found hpasses hrecord]
    exact ⟨rfl, _, _, _, rfl, rfl, howner, rfl, rfl, (Family.ofType?_eq_some_iff.1 hfamily).symm,
      rfl⟩
  · have hfind : tables.findSome? (·.lookup? q.name.text family) = none :=
      List.findSome?_eq_none_iff.2 fun t ht => by
        rw [HostsTable.lookup?_eq_head?, hnone t ht]
        rfl
    have hhosts : r.hostsRecord? q = .ok none := by
      rw [hostsRecord?, hfamily, Option.bind_some, hr, hostsText?_of_tables hlabels, hfind]
      rfl
    exact ⟨hhosts, run_of_admits ⟨hpasses, hhosts⟩⟩
  · obtain ⟨ip, hip, rfl⟩ := Option.map_eq_some_iff.1 htext
    obtain ⟨owner, -, hparse⟩ := parse_of_lookup? (hbuilt t ht) hlabels hkeeps hname hip
    exact ⟨ip, _, hip, hparse, rfl⟩

/-- Of two tables only the second has an IPv6 address for `router.lan.`. -/
theorem execute_of_tables_router :
    let first := HostsTable.ofText "10.0.0.1 router.lan\n".toList
    let second :=
      HostsTable.ofText "10.0.0.2 router.lan\nfd00::1 nas Router.lan. # second\n".toList
    let r : Resolver Unit := { oneServer with hosts := [first.source, second.source] }
    let name : Name := ⟨[[114, 111, 117, 116, 101, 114], [108, 97, 110]], by decide⟩
    let request : Message :=
      { Message.bare (Header.blank 7 false 0) with questions := [⟨name, 28, 1⟩] }
    let env : Surroundings Unit := .answering (Message.bare (Header.blank 0 true 0))
    let ip : Ipv6 := ⟨[0xfd00, 0, 0, 0, 0, 0, 0, 1], rfl⟩
    (r.execute env 1 request (.fresh .standard)).1 = .ok .hosts ∧
      ∃ reply taken record,
        (r.execute env 1 request (.fresh .standard)).2.events = [.wrote reply taken] ∧
        reply.answers = [record] ∧ record.data = .ipv6 ip := by
  intro first second r name request env ip
  have hlabels : ∀ l ∈ name.labels, Name.isHostLabel l = true ∧ Name.isAce l = false := by decide
  have hbuilt : ∀ t ∈ [first, second], t.Built := by
    simp [first, second, HostsTable.built_ofText]
  obtain ⟨hfound, -⟩ := execute_of_tables r env 1 request (.fresh .standard) rfl hbuilt rfl
    (show Family.ofType? 28 = some .v6 from rfl) (fun l hl => (hlabels l hl).1)
    (fun l hl hace => absurd hace (by simp [(hlabels l hl).2])) (by decide)
  obtain ⟨hresult, reply, taken, record, hevents, hanswers, -, -, -, -, hdata⟩ :=
    hfound [first] second [] (.v6 ip) [] rfl (by decide) (by decide)
  exact ⟨hresult, reply, taken, record, hevents, hanswers, hdata⟩

end Resolver

end SplitDns
