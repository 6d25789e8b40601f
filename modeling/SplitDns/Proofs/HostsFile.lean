import SplitDns.Hosts.Table
import SplitDns.Proofs.CanonicalForm
import SplitDns.Proofs.SocketText

/-!
# Hosts files

A hosts table answers as its file does when it is read from the top: with the address of the first
line that gives the name one of the asked family (`HostsTable.ofText_first_line`).  Names are one
when they differ in blanks around them, dots at their end and letter case only
(`HostsTable.EnteredAs`).  Each address is entered behind those that are there, so that it answers
only what had no answer before (`HostsTable.lookup?_insert`), and lines below change no answer
(`HostsTable.lookup?_addLine`).
-/

namespace SplitDns

/-- The family of an address. -/
def IpAddr.family : IpAddr → Family
  | v4 _ => .v4
  | v6 _ => .v6

theorem Family.has_iff {family : Family} {ip : IpAddr} :
    family.has ip = true ↔ ip.family = family := by
  cases family <;> cases ip <;> simp [has, IpAddr.family]

namespace HostsTable

/-! ## Entering addresses -/

theorem lookup_enter (k : Text) (ip : IpAddr) (es : List (Text × List IpAddr)) (k' : Text) :
    (enter k ip es).lookup k' =
      if k' = k then
        some (((es.lookup k).getD []) ++ if ip ∈ (es.lookup k).getD [] then [] else [ip])
      else es.lookup k' := by
  induction es with
  | nil =>
    by_cases hk : k' = k
    · simp [enter, hk]
    · simp [enter, hk, List.lookup_cons, beq_false_of_ne hk]
  | cons e es ih =>
    obtain ⟨d, ips⟩ := e
    unfold enter
    by_cases hd : d = k
    · subst hd
      by_cases hk : k' = d
      · by_cases hmem : ip ∈ ips <;> simp [hk, hmem]
      · simp [hk, List.lookup_cons, beq_false_of_ne hk]
    · by_cases hk : k' = d
      · simp [hk, hd]
      · simp [hd, List.lookup_cons, beq_false_of_ne hk, ih, beq_false_of_ne (Ne.symm hd)]

/-- Whether an address that is entered under a name can answer a question. -/
def answers (name : Text) (ip : IpAddr) (domain : Text) (family : Family) : Bool :=
  !(key domain).isEmpty && key name == key domain && family.has ip

/-- Searching behind addresses that are there, for one that may be among them. -/
theorem find?_append_new (p : IpAddr → Bool) (ips : List IpAddr) (ip : IpAddr) :
    (ips ++ if ip ∈ ips then [] else [ip]).find? p =
      (ips.find? p).or (if p ip then some ip else none) := by
  rw [List.find?_append]
  by_cases hmem : ip ∈ ips
  · rw [if_pos hmem]
    cases hfind : ips.find? p with
    | some found => simp
    | none => simp [List.find?_eq_none.1 hfind ip hmem]
  · rw [if_neg hmem]
    cases h : p ip <;> simp [h]

/-- An address that is entered is the answer to questions that had none. -/
theorem lookup?_insert (t : HostsTable) (name : Text) (ip : IpAddr) (domain : Text)
    (family : Family) : (t.insert name ip).lookup? domain family =
      (t.lookup? domain family).or (if answers name ip domain family then some ip else none) := by
  unfold HostsTable.insert
  -- Entering under one name leaves what is looked up under another.
  by_cases hkey : key domain = key name
  · by_cases hempty : (key name).isEmpty = true
    · simp [hempty, answers, hkey]
    · rw [if_neg hempty]
      simp only [lookup?, addresses?, lookup_enter, hkey, if_true, Option.bind_some,
        find?_append_new, answers, beq_self_eq_true, Bool.and_true, hempty]
      cases t.entries.lookup (key name) <;> simp
  · have hno : answers name ip domain family = false := by
      simp [answers, Ne.symm hkey]
    rw [hno]
    split
    · simp
    · simp [lookup?, addresses?, lookup_enter, hkey]

/-! ## Names -/

/-- The names of a table, in the form in which they are entered. -/
def names (t : HostsTable) : List Text :=
  t.entries.map Prod.fst

theorem mem_names_enter {k k' : Text} {ip : IpAddr} {es : List (Text × List IpAddr)} :
    k' ∈ (enter k ip es).map Prod.fst ↔ k' = k ∨ k' ∈ es.map Prod.fst := by
  induction es with
  | nil => simp [enter]
  | cons e es ih =>
    obtain ⟨d, ips⟩ := e
    unfold enter
    by_cases hd : d = k
    · simp [hd]
    · rw [if_neg hd, List.map_cons, List.mem_cons, ih, List.map_cons, List.mem_cons]
      exact or_left_comm

theorem nodup_names_enter (k : Text) (ip : IpAddr) {es : List (Text × List IpAddr)}
    (h : (es.map Prod.fst).Nodup) : ((enter k ip es).map Prod.fst).Nodup := by
  induction es with
  | nil => simp [enter]
  | cons e es ih =>
    obtain ⟨d, ips⟩ := e
    obtain ⟨hnew, hrest⟩ := List.nodup_cons.1 h
    unfold enter
    by_cases hd : d = k
    · simpa [hd] using h
    · rw [if_neg hd, List.map_cons, List.nodup_cons, mem_names_enter]
      exact ⟨fun hmem => hmem.elim hd hnew, ih hrest⟩

theorem mem_names_insert {t : HostsTable} {name k : Text} {ip : IpAddr} :
    k ∈ (t.insert name ip).names ↔ k ∈ t.names ∨ (k ≠ [] ∧ key name = k) := by
  unfold HostsTable.insert
  by_cases hempty : key name = []
  · rw [if_pos (List.isEmpty_iff.2 hempty), hempty]
    exact ⟨.inl, fun h => h.elim id fun hk => absurd hk.2.symm hk.1⟩
  · rw [if_neg (by simpa using hempty)]
    show k ∈ (enter (key name) ip t.entries).map Prod.fst ↔ _
    rw [mem_names_enter, or_comm]
    refine or_congr_right ⟨fun hk => ?_, fun hk => hk.2.symm⟩
    exact ⟨hk ▸ hempty, hk.symm⟩

theorem nodup_names_insert {t : HostsTable} (name : Text) (ip : IpAddr) (h : t.names.Nodup) :
    (t.insert name ip).names.Nodup := by
  unfold HostsTable.insert
  split
  · exact h
  · exact nodup_names_enter _ ip h

/-! ## Lines -/

/-- A name is entered and looked up in the canonical form of what it holds between blanks. -/
def EnteredAs (name k : Text) : Prop :=
  ∃ body, Text.Trimmed name body ∧ Domain.Canonical body k

theorem enteredAs_iff {name k : Text} : EnteredAs name k ↔ key name = k := by
  simp only [EnteredAs, Text.trimmed_iff, Domain.canonical_iff, exists_eq_left', key]

/-- A line gives an address under a name: up to a `#` it is the address with names behind it, one
of which is entered as the name. -/
def Gives (line : Text) (ip : IpAddr) (k : Text) : Prop :=
  ∃ address names, Text.words (line.takeWhile (· != '#')) = address :: names ∧
    IpAddr.parse? address = some ip ∧ k ≠ [] ∧ ∃ name ∈ names, EnteredAs name k

theorem line?_eq_some_iff {line : Text} {ip : IpAddr} {names : List Text} :
    line? line = some (ip, names) ↔
      ∃ address, Text.words (line.takeWhile (· != '#')) = address :: names ∧
        IpAddr.parse? address = some ip := by
  unfold line?
  split
  next hwords => simp [hwords]
  next address names' hwords =>
    rw [hwords, Option.map_eq_some_iff]
    constructor
    · rintro ⟨ip', hip, heq⟩
      cases heq
      exact ⟨address, rfl, hip⟩
    · rintro ⟨address', heq, hip⟩
      cases heq
      exact ⟨ip, hip, rfl⟩

theorem gives_iff_of_line? {line k : Text} {ip ip' : IpAddr} {names : List Text}
    (h : line? line = some (ip', names)) :
    Gives line ip k ↔ ip = ip' ∧ k ≠ [] ∧ ∃ name ∈ names, key name = k := by
  simp only [Gives, enteredAs_iff]
  constructor
  · rintro ⟨address, names', hwords, hip, hname⟩
    have heq := line?_eq_some_iff.2 ⟨address, hwords, hip⟩
    rw [h] at heq
    cases heq
    exact ⟨rfl, hname⟩
  · rintro ⟨rfl, hname⟩
    obtain ⟨address, hwords, hip⟩ := line?_eq_some_iff.1 h
    exact ⟨address, names, hwords, hip, hname⟩

theorem not_gives_of_line? {line k : Text} {ip : IpAddr} (h : line? line = none) :
    ¬ Gives line ip k := by
  rintro ⟨address, names, hwords, hip, -⟩
  rw [line?_eq_some_iff.2 ⟨address, hwords, hip⟩] at h
  cases h

/-- The answer of a line to a question. -/
def given? (line domain : Text) (family : Family) : Option IpAddr :=
  (line? line).bind fun (ip, names) =>
    if names.any (answers · ip domain family) then some ip else none

theorem given?_eq_some_iff {line domain : Text} {family : Family} {ip : IpAddr} :
    given? line domain family = some ip ↔ Gives line ip (key domain) ∧ ip.family = family := by
  rw [← Family.has_iff]
  unfold given?
  cases hline : line? line with
  | none => simp [not_gives_of_line? hline]
  | some p =>
    obtain ⟨ip', names⟩ := p
    have hany : names.any (answers · ip' domain family) = true ↔
        (key domain ≠ [] ∧ ∃ name ∈ names, key name = key domain) ∧ family.has ip' = true := by
      simp only [answers, List.any_eq_true, Bool.and_eq_true, Bool.not_eq_true',
        List.isEmpty_eq_false_iff, beq_iff_eq]
      constructor
      · rintro ⟨name, hname, ⟨hne, hkey⟩, hhas⟩
        exact ⟨⟨hne, name, hname, hkey⟩, hhas⟩
      · rintro ⟨⟨hne, name, hname, hkey⟩, hhas⟩
        exact ⟨name, hname, ⟨hne, hkey⟩, hhas⟩
    rw [gives_iff_of_line? hline, Option.bind_some, Option.ite_none_right_eq_some, hany]
    constructor
    · rintro ⟨⟨hname, hhas⟩, heq⟩
      cases heq
      exact ⟨⟨rfl, hname⟩, hhas⟩
    · rintro ⟨⟨rfl, hname⟩, hhas⟩
      exact ⟨⟨hname, hhas⟩, rfl⟩

/-- A line is no answer when it gives the name addresses of the other family only. -/
theorem given?_eq_none_iff {line domain : Text} {family : Family} :
    given? line domain family = none ↔
      ∀ ip, Gives line ip (key domain) → ip.family ≠ family := by
  simp [Option.eq_none_iff_forall_ne_some, given?_eq_some_iff]

variable {t : HostsTable}

theorem lookup?_foldl_insert (ip : IpAddr) (names : List Text) (domain : Text) (family : Family) :
    (names.foldl (fun t name => t.insert name ip) t).lookup? domain family =
      (t.lookup? domain family).or
        (if names.any (answers · ip domain family) then some ip else none) := by
  induction names generalizing t with
  | nil => simp
  | cons name names ih =>
    rw [List.foldl_cons, ih, lookup?_insert, Option.or_assoc, List.any_cons]
    cases answers name ip domain family <;> simp

/-- A line that is read is the answer to questions that had none. -/
theorem lookup?_addLine (line domain : Text) (family : Family) :
    (t.addLine line).lookup? domain family =
      (t.lookup? domain family).or (given? line domain family) := by
  unfold addLine given?
  cases line? line with
  | none => simp
  | some p => exact lookup?_foldl_insert p.1 p.2 domain family

theorem mem_names_foldl_insert {ip : IpAddr} {names : List Text} {k : Text} :
    k ∈ (names.foldl (fun t name => t.insert name ip) t).names ↔
      k ∈ t.names ∨ (k ≠ [] ∧ ∃ name ∈ names, key name = k) := by
  induction names generalizing t with
  | nil => simp
  | cons name names ih =>
    rw [List.foldl_cons, ih, mem_names_insert, or_assoc, ← and_or_left]
    simp

theorem mem_names_addLine {line k : Text} :
    k ∈ (t.addLine line).names ↔ k ∈ t.names ∨ ∃ ip, Gives line ip k := by
  unfold addLine
  cases hline : line? line with
  | none => simp [not_gives_of_line? hline]
  | some p =>
    obtain ⟨ip, names⟩ := p
    simp [mem_names_foldl_insert, gives_iff_of_line? hline]

theorem nodup_names_addLine (line : Text) (h : t.names.Nodup) : (t.addLine line).names.Nodup := by
  unfold addLine
  split
  · exact h
  · exact List.foldlRecOn (motive := fun t : HostsTable => t.names.Nodup) _ _ h fun t ht name _ =>
      nodup_names_insert name _ ht

/-! ## Files -/

theorem lookup?_foldl_addLine (lines : List Text) (domain : Text) (family : Family) :
    (lines.foldl addLine t).lookup? domain family =
      (t.lookup? domain family).or (lines.findSome? (given? · domain family)) := by
  induction lines generalizing t with
  | nil => simp
  | cons line lines ih =>
    rw [List.foldl_cons, ih, lookup?_addLine, Option.or_assoc, List.findSome?_cons]
    cases given? line domain family <;> simp

theorem mem_names_foldl_addLine {lines : List Text} {k : Text} :
    k ∈ (lines.foldl addLine t).names ↔ k ∈ t.names ∨ ∃ line ∈ lines, ∃ ip, Gives line ip k := by
  induction lines generalizing t with
  | nil => simp
  | cons line lines ih =>
    rw [List.foldl_cons, ih, mem_names_addLine, or_assoc]
    simp

theorem lookup?_ofText (text domain : Text) (family : Family) :
    (ofText text).lookup? domain family =
      (Text.lines text).findSome? (given? · domain family) := by
  rw [ofText, lookup?_foldl_addLine]
  rfl

theorem mem_names_ofText {text k : Text} :
    k ∈ (ofText text).names ↔ ∃ line ∈ Text.lines text, ∃ ip, Gives line ip k := by
  rw [ofText, mem_names_foldl_addLine]
  exact or_iff_right List.not_mem_nil

theorem nodup_names_ofText (text : Text) : (ofText text).names.Nodup :=
  List.foldlRecOn (motive := fun t : HostsTable => t.names.Nodup) _ _ List.nodup_nil
    fun _ ht line _ => nodup_names_addLine line ht

theorem text_ttl : Decimal.text ttl = ['6', '0'] := by
  rw [Decimal.text, Digits.text, if_neg (by decide), Digits.text, if_pos (by decide)]
  rfl

theorem recordText_eq (name : Text) (family : Family) (ip : IpAddr) :
    recordText name family ip =
      name ++ (if family = .v4 then " 60 IN A " else " 60 IN AAAA ").toList ++ ip.text := by
  cases family <;> simp [recordText, Text.join, text_ttl, Family.text]

/-- A table that is read from a file answers with the first line that gives the name an address of
the family, and has an entry for each name that a line gives an address. -/
theorem ofText_first_line (text domain : Text) (family : Family) :
    ∃ k, (∀ k', EnteredAs domain k' ↔ k' = k) ∧
      (∀ answer, (ofText text).record? domain family = some answer ↔
        ∃ before line after ip, Text.lines text = before ++ line :: after ∧
          (∀ other ∈ before, ∀ ip, Gives other ip k → ip.family ≠ family) ∧
          Gives line ip k ∧ ip.family = family ∧ IpAddr.parse? ip.text = some ip ∧
          answer = domain ++ (if family = .v4 then " 60 IN A " else " 60 IN AAAA ").toList ++
            ip.text) ∧
      ((ofText text).record? domain family = none ↔
        ∀ line ∈ Text.lines text, ∀ ip, Gives line ip k → ip.family ≠ family) ∧
      ∃ ks : List Text, ks.Nodup ∧ ks.length = (ofText text).size ∧
        ∀ k, k ∈ ks ↔ ∃ line ∈ Text.lines text, ∃ ip, Gives line ip k := by
  refine ⟨key domain, fun k' => enteredAs_iff.trans eq_comm, fun answer => ?_, ?_,
    (ofText text).names, nodup_names_ofText text, ?_, fun k => mem_names_ofText⟩
  · rw [record?, Option.map_eq_some_iff]
    simp only [lookup?_ofText, List.findSome?_eq_some_iff, given?_eq_some_iff, given?_eq_none_iff,
      ← recordText_eq]
    constructor
    · rintro ⟨ip, ⟨before, line, after, hlines, ⟨hgives, hfamily⟩, hbefore⟩, rfl⟩
      exact ⟨before, line, after, ip, hlines, hbefore, hgives, hfamily, ip.parse?_text, rfl⟩
    · rintro ⟨before, line, after, ip, hlines, hbefore, hgives, hfamily, -, rfl⟩
      exact ⟨ip, ⟨before, line, after, hlines, ⟨hgives, hfamily⟩, hbefore⟩, rfl⟩
  · rw [record?, Option.map_eq_none_iff, lookup?_ofText, List.findSome?_eq_none_iff]
    simp only [given?_eq_none_iff]
  · exact List.length_map ..

/-- A name with capitals, a dot and blanks is answered from the fourth line: before it stand a line
of the other family, one for another name and one that is cut short by a comment. -/
theorem ofText_first_line_printer :
    let lines : List Text := ["fe80::1\tprinter.lan".toList, "10.0.0.1  router  gateway.lan".toList,
      "10.0.0.2 router # printer.lan".toList, "10.0.0.3 PRINTER.lan.. Printer".toList,
      "printer.lan 10.0.0.4".toList, "10.0.0.5 printer.lan".toList]
    let text := Text.join "\r\n".toList lines
    (ofText text).record? " Printer.LAN. ".toList .v4 =
        some " Printer.LAN.  60 IN A 10.0.0.3".toList ∧
      (ofText text).record? "gateway.lan".toList .v6 = none ∧ (ofText text).size = 4 := by
  intro lines text
  refine ⟨?_, ?_, by decide⟩
  · obtain ⟨k, hk, hsome, -⟩ := ofText_first_line text " Printer.LAN. ".toList .v4
    cases (hk _).1 (enteredAs_iff.2 rfl)
    refine (hsome _).2 ⟨lines.take 3, "10.0.0.3 PRINTER.lan.. Printer".toList, lines.drop 4,
      .v4 ⟨10, 0, 0, 3⟩, rfl, ?_, ?_, rfl, IpAddr.parse?_text _, ?_⟩
    · exact fun other hother => given?_eq_none_iff.1 (by revert other; decide)
    · exact ((@given?_eq_some_iff _ _ .v4 _).1 (by decide)).1
    · decide +kernel
  · obtain ⟨k, hk, -, hnone, -⟩ := ofText_first_line text "gateway.lan".toList .v6
    cases (hk _).1 (enteredAs_iff.2 rfl)
    exact hnone.2 fun line hline => given?_eq_none_iff.1 (by revert line; decide)

end HostsTable

end SplitDns
