import Mathlib.Data.List.Forall2
import SplitDns.Proofs.LetterCase
import SplitDns.Proofs.NameText
import SplitDns.Resolver.Basic

/-!
# Spellings of names

Texts that are equal ignoring ASCII case are read as names that are (`Name.parse?_lower`): letter
case changes neither where labels end nor what the ASCII form of an international label is.  Hosts
tables give such texts the same addresses, and the records made of them differ in the letter case of
their owners only (`Resolver.hostsRecord?_respelled`).
-/

namespace SplitDns

namespace Text

/-- What is the same for each capital letter and its small one is the same for texts in any case. -/
theorem toLower_congr {α : Type} {f : Char → α}
    (h : ∀ n < 91, f (Char.ofNat n).toLower = f (Char.ofNat n)) (c : Char) :
    f c.toLower = f c := by
  rcases toLower_cases c with ⟨⟨-, hc⟩, -⟩ | ⟨-, hc⟩
  · have hn := h c.toNat (Nat.lt_succ_of_le hc)
    rwa [Char.ofNat_toNat] at hn
  · rw [hc]

theorem toLower_eq_iff {d : Char}
    (h : ∀ n < 91, ((Char.ofNat n).toLower == d) = (Char.ofNat n == d)) (c : Char) :
    c.toLower = d ↔ c = d := by
  have hc := toLower_congr (f := (· == d)) h c
  rwa [Bool.eq_iff_iff, beq_iff_eq, beq_iff_eq] at hc

theorem lower_append (s t : Text) : lower (s ++ t) = lower s ++ lower t :=
  List.map_append

end Text

namespace Name

/-! ## Where labels end -/

theorem isNumeric_toLower : ∀ c : Char, isNumeric c.toLower = isNumeric c :=
  Text.toLower_congr (by decide)

theorem octal?_toLower : ∀ c : Char, octal? c.toLower = octal? c :=
  Text.toLower_congr (by decide)

theorem isRefused_toLower : ∀ c : Char, isRefused c.toLower = isRefused c :=
  Text.toLower_congr (by decide)

/-- A text and its small letters are cut into labels at the same places.  The labels are the same up
to case only, since octal escapes bring in capital letters. -/
theorem cutLabels_lower (t : Text) {label label' : Text} (state : Escape)
    (h : Text.lower label = Text.lower label') :
    (cutLabels state label t).map (·.map Text.lower) =
      (cutLabels state label' (Text.lower t)).map (·.map Text.lower) := by
  induction t generalizing state label label' with
  | nil =>
    have hempty : label.isEmpty = label'.isEmpty := by
      have hlength := congrArg List.length h
      rw [Text.lower, Text.lower, List.length_map, List.length_map] at hlength
      cases label <;> cases label' <;> simp_all
    simp only [Text.lower, List.map_nil, cutLabels, Option.map_some, hempty]
    split
    · rfl
    · simpa using h
  | cons c r ih =>
    have hsnoc : Text.lower (label ++ [c]) = Text.lower (label' ++ [c.toLower]) := by
      rw [Text.lower_append, Text.lower_append, h]
      exact congrArg (Text.lower label' ++ [·]) (Text.toLower_toLower c).symm
    rw [Text.lower, List.map_cons]
    cases state with
    | plain =>
      simp only [cutLabels, Text.toLower_eq_iff (d := '.') (by decide),
        Text.toLower_eq_iff (d := '\\') (by decide), isRefused_toLower]
      split
      · have hcons : ∀ (l : Text) (o : Option (List Text)),
            (o.map (l :: ·)).map (·.map Text.lower) =
              (o.map (·.map Text.lower)).map (Text.lower l :: ·) := by
          intro l o
          cases o <;> rfl
        rw [hcons, hcons, h]
        exact congrArg (Option.map _) (ih .plain rfl)
      · split
        · exact ih .start h
        · split
          · rfl
          · exact ih .plain hsnoc
    | start =>
      simp only [cutLabels, isNumeric_toLower, octal?_toLower]
      split
      · cases octal? c with
        | none => rfl
        | some a => exact ih (.one a) h
      · exact ih .plain hsnoc
    | one a =>
      simp only [cutLabels, octal?_toLower]
      cases octal? c with
      | none => rfl
      | some b => exact ih (.two a b) h
    | two a b =>
      simp only [cutLabels, octal?_toLower]
      cases octal? c with
      | none => rfl
      | some d =>
        refine ih .plain ?_
        rw [Text.lower_append, Text.lower_append, h]

/-! ## Labels -/

theorem lt_of_isLabelChar {atStart : Bool} {c : Char} (h : isLabelChar atStart c = true) :
    c.toNat < 128 := by
  simp only [isLabelChar, Bool.or_eq_true, Bool.and_eq_true, beq_iff_eq] at h
  rcases h with (((h | rfl) | rfl) | ⟨rfl, -⟩) | ⟨rfl, -⟩
  · exact Text.lt_of_isAlphanum h
  all_goals decide

theorem isLabelChar_toLower (atStart : Bool) (c : Char) :
    isLabelChar atStart c.toLower = isLabelChar atStart c := by
  revert c
  cases atStart <;> exact Text.toLower_congr (by decide)

theorem encode_lower {t : Text} (h : ∀ c ∈ t, c.toNat < 128) :
    Utf8.encode (Text.lower t) = (Utf8.encode t).map lowerOctet := by
  have hascii : ∀ n < 128, String.utf8EncodeChar (Char.ofNat n).toLower =
      (String.utf8EncodeChar (Char.ofNat n)).map lowerOctet := by
    decide +kernel
  induction t with
  | nil => rfl
  | cons c t ih =>
    have hc := hascii c.toNat (h c (List.mem_cons_self ..))
    rw [Char.ofNat_toNat] at hc
    have ht := ih fun d hd => h d (List.mem_cons_of_mem _ hd)
    unfold Utf8.encode at ht ⊢
    rw [Text.lower, List.map_cons, List.flatMap_cons, List.flatMap_cons, List.map_append, hc, ← ht]
    rfl

theorem lowerOctet_lowerOctet : ∀ b : UInt8, lowerOctet (lowerOctet b) = lowerOctet b :=
  forall_octet (by decide +kernel)

theorem asciiLabel?_lower (t : Text) :
    asciiLabel? (Text.lower t) = (asciiLabel? t).map (·.map lowerOctet) := by
  cases t with
  | nil => rfl
  | cons c r =>
    have hchars : (isLabelChar true c.toLower && (Text.lower r).all (isLabelChar false)) =
        (isLabelChar true c && r.all (isLabelChar false)) := by
      rw [Text.lower, List.all_map, isLabelChar_toLower]
      simp only [Function.comp_def, isLabelChar_toLower]
    have hlower : Text.lower (c :: r) = c.toLower :: Text.lower r := rfl
    rw [hlower, asciiLabel?, asciiLabel?, hchars]
    split
    next h =>
      rw [← hlower, encode_lower]
      · rfl
      · rw [Bool.and_eq_true, List.all_eq_true] at h
        exact List.forall_mem_cons.2
          ⟨lt_of_isLabelChar h.1, fun d hd => lt_of_isLabelChar (h.2 d hd)⟩
    next h => rfl

theorem normal_lower (t : Text) : Idna.normal (Text.lower t) = Idna.normal t := by
  have hmapped : ∀ c : Char, Idna.mapped c.toLower = Idna.mapped c :=
    Text.toLower_congr (by decide +kernel)
  rw [Idna.normal, Text.lower, List.flatMap_map]
  simp only [hmapped]
  rfl

theorem head?_lower_eq_underscore (t : Text) :
    (Text.lower t).head? = some '_' ↔ t.head? = some '_' := by
  cases t with
  | nil => rfl
  | cons c r => simp [Text.lower, Text.toLower_eq_iff (d := '_') (by decide)]

/-- The ASCII form of a label in small letters is that of the label, in small letters. -/
theorem label?_lower (t : Text) :
    (label? (Text.lower t)).map (·.map lowerOctet) = (label? t).map (·.map lowerOctet) := by
  rw [label?, label?]
  simp only [head?_lower_eq_underscore]
  split
  · rw [asciiLabel?_lower, Option.map_map]
    congr 1
    funext l
    exact (List.map_map ..).trans (List.map_congr_left fun b _ => lowerOctet_lowerOctet b)
  · rw [Idna.ascii?, normal_lower]
    rfl

theorem mapM_label?_lower : ∀ {ls ks : List Text}, ls.map Text.lower = ks.map Text.lower →
    (ls.mapM label?).map (·.map (·.map lowerOctet)) =
      (ks.mapM label?).map (·.map (·.map lowerOctet))
  | [], [], _ => rfl
  | [], k :: ks, h => by cases h
  | l :: ls, [], h => by cases h
  | l :: ls, k :: ks, h => by
    rw [List.map_cons, List.map_cons, List.cons.injEq] at h
    have hhead : (label? l).map (·.map lowerOctet) = (label? k).map (·.map lowerOctet) := by
      rw [← label?_lower l, h.1, label?_lower]
    have htail := mapM_label?_lower h.2
    rw [List.mapM_cons, List.mapM_cons]
    cases hl : label? l <;> cases hk : label? k <;> rw [hl, hk] at hhead
    · rfl
    · cases hhead
    · cases hhead
    · cases hls : ls.mapM label? <;> cases hks : ks.mapM label? <;> rw [hls, hks] at htail
      · rfl
      · cases htail
      · cases htail
      · simp only [Option.map_some, Option.some.injEq] at hhead htail
        simp [hhead, htail]

/-! ## Names -/

theorem ofLabels?_lower (ls : List Label) :
    (ofLabels? ls).map lower = ofLabels? (ls.map (·.map lowerOctet)) := by
  rw [ofLabels?, ofLabels?]
  split
  next h => rw [dif_pos ((fits_map_iff lowerOctet).2 h)]; rfl
  next h => rw [dif_neg (mt (fits_map_iff lowerOctet).1 h)]; rfl

/-- The labels of a name are read up to letter case when its pieces are given up to letter case. -/
theorem ofPieces_lower {ls ks : List Text} (h : ls.map Text.lower = ks.map Text.lower) :
    ((ls.mapM label?).bind ofLabels?).map lower = ((ks.mapM label?).bind ofLabels?).map lower := by
  have hbind : ∀ o : Option (List Label),
      (o.bind ofLabels?).map lower = (o.map (·.map (·.map lowerOctet))).bind ofLabels? := by
    intro o
    cases o with
    | none => rfl
    | some ls => exact ofLabels?_lower ls
  rw [hbind, hbind, mapM_label?_lower h]

/-- Texts that are equal ignoring case are read as names that are, or not at all. -/
theorem parse?_lower {s t : Text} (h : Text.lower s = Text.lower t) :
    (parse? s).map lower = (parse? t).map lower := by
  have hdot : ∀ t, Text.lower t = ['.'] ↔ t = ['.'] := by
    intro t
    rw [Text.lower, List.map_eq_singleton_iff]
    simp only [Text.toLower_eq_iff (d := '.') (by decide), exists_eq_right]
  have hcut : (cutLabels .plain [] s).map (·.map Text.lower) =
      (cutLabels .plain [] t).map (·.map Text.lower) := by
    rw [cutLabels_lower s .plain rfl, cutLabels_lower t .plain rfl, h]
  have hbind : ∀ t : Text, parse? t = if t = ['.'] then some root else
      (cutLabels .plain [] t).bind fun ls => (ls.mapM label?).bind ofLabels? := fun t => rfl
  rw [hbind, hbind]
  simp only [← hdot s, ← hdot t, h]
  split
  · rfl
  · cases hs : cutLabels .plain [] s with
    | none =>
      rw [hs, eq_comm, Option.map_none, Option.map_eq_none_iff] at hcut
      rw [hcut]
    | some ls =>
      rw [hs, eq_comm, Option.map_some, Option.map_eq_some_iff] at hcut
      obtain ⟨ks, ht, hks⟩ := hcut
      rw [ht]
      exact ofPieces_lower hks.symm

end Name

/-! ## Words -/

namespace Text

theorem not_blank_of_all {t : Text} (h : t.all (!isBlank ·) = true) :
    ∀ c ∈ t, isBlank c = false := by
  simpa using h

theorem words_append {name : Text} (h : ∀ c ∈ name, isBlank c = false) (rest : Text) :
    words (name ++ ' ' :: rest) = (if name.isEmpty then [] else [name]) ++ words rest := by
  rw [words, split_append h rfl]
  cases name <;> rfl

theorem trim_eq_self {t : Text} (h : ∀ c ∈ t, isBlank c = false) : trim t = t := by
  have hdrop : ∀ {s : Text}, (∀ c ∈ s, isBlank c = false) → s.dropWhile isBlank = s := by
    intro s hs
    cases s with
    | nil => rfl
    | cons c s => exact List.dropWhile_cons_of_neg (by simp [hs c (List.mem_cons_self ..)])
  rw [trim, hdrop h, dropTailWhile, hdrop (by simpa using h), List.reverse_reverse]

theorem before?_lower_dot (t : Text) :
    before? ['.'] (lower t) = (before? ['.'] t).map lower := by
  have hsuffix : ['.'].isSuffixOf (lower t) = ['.'].isSuffixOf t := by
    rcases List.eq_nil_or_concat t with rfl | ⟨s, c, rfl⟩
    · rfl
    · rw [Bool.eq_iff_iff]
      simp [lower, List.isSuffixOf, List.isPrefixOf, eq_comm (a := '.'),
        toLower_eq_iff (d := '.') (by decide)]
  rw [before?, before?, hsuffix, lower, List.length_map, ← List.map_take]
  split <;> rfl

end Text

/-! ## Hosts tables -/

/-- A record with its owner in small letters. -/
def Record.lowerOwner (r : Record) : Record :=
  { r with name := r.name.lower }

namespace HostsTable

/-- Texts of one record under two spellings of a name without blanks. -/
inductive Respelled : Text → Text → Prop
  | mk {a b : Text} (family : Family) (ip : IpAddr) (ha : ∀ c ∈ a, Text.isBlank c = false)
      (hb : ∀ c ∈ b, Text.isBlank c = false) (h : Text.lower a = Text.lower b) :
      Respelled (recordText a family ip) (recordText b family ip)

theorem key_congr {a b : Text} (ha : ∀ c ∈ a, Text.isBlank c = false)
    (hb : ∀ c ∈ b, Text.isBlank c = false) (h : Text.lower a = Text.lower b) : key a = key b := by
  rw [key, key, Text.trim_eq_self ha, Text.trim_eq_self hb, ← Domain.canonical_lower a, h,
    Domain.canonical_lower]

theorem record?_respelled (t : HostsTable) (family : Family) {a b : Text}
    (ha : ∀ c ∈ a, Text.isBlank c = false) (hb : ∀ c ∈ b, Text.isBlank c = false)
    (h : Text.lower a = Text.lower b) :
    Option.Rel Respelled (t.record? a family) (t.record? b family) := by
  have hlookup : t.lookup? a family = t.lookup? b family := by
    rw [lookup?, addresses?, key_congr ha hb h]
    rfl
  rw [record?, record?, hlookup]
  cases t.lookup? b family with
  | none => exact .none
  | some ip => exact .some ⟨family, ip, ha, hb, h⟩

end HostsTable

namespace HostRecord

/-- Records that differ in the letter case of their owners, or faults. -/
inductive Alike : Except Fault Record → Except Fault Record → Prop
  | record {a b : Record} (h : a.lowerOwner = b.lowerOwner) : Alike (.ok a) (.ok b)
  | fault (e f : Fault) : Alike (.error e) (.error f)

theorem lower_closed {a b : Text} (h : Text.lower a = Text.lower b) :
    Text.lower (closed a) = Text.lower (closed b) := by
  have hlast : ∀ t : Text, (Text.lower t).getLast? = some '.' ↔ t.getLast? = some '.' := by
    intro t
    rw [Text.lower, List.getLast?_map, Option.map_eq_some_iff]
    simp only [Text.toLower_eq_iff (d := '.') (by decide), exists_eq_right]
  have hiff : a.getLast? = some '.' ↔ b.getLast? = some '.' := by
    rw [← hlast a, h, hlast b]
  rw [closed, closed]
  simp only [hiff]
  split
  · exact h
  · rw [Text.lower_append, Text.lower_append, h]

theorem alike_refl (x : Except Fault Record) : Alike x x := by
  cases x with
  | error e => exact .fault e e
  | ok a => exact .record rfl

/-- Texts of which only the first words differ, and those only in case, are read alike. -/
theorem parse_alike {s t a b : Text} {ws : List Text} (hs : Text.words s = a :: ws)
    (ht : Text.words t = b :: ws) (h : Text.lower a = Text.lower b) :
    Alike (parse s) (parse t) := by
  have hname := Name.parse?_lower (lower_closed h)
  unfold parse
  rw [hs, ht]
  match ws with
  | [ttl, dnsClass, type, value] =>
    simp only
    split
    · exact .fault _ _
    · cases Decimal.word32? ttl with
      | none => exact .fault _ _
      | some seconds =>
        cases ha : Name.parse? (closed a) with
        | none =>
          rw [ha, eq_comm, Option.map_none, Option.map_eq_none_iff] at hname
          rw [hname]
          exact .fault _ _
        | some n =>
          rw [ha, eq_comm, Option.map_some, Option.map_eq_some_iff] at hname
          obtain ⟨m, hb, hm⟩ := hname
          rw [hb]
          cases data type value with
          | error fault => exact .fault _ _
          | ok d =>
            refine .record ?_
            simp only [Record.lowerOwner, hm]
  | [] | [_] | [_, _] | [_, _, _] | _ :: _ :: _ :: _ :: _ :: _ => exact .fault _ _

/-- Texts of one record under two spellings are read as records that differ in the owner's case. -/
theorem parse_respelled {s t : Text} (h : HostsTable.Respelled s t) :
    Alike (parse s) (parse t) := by
  cases h with
  | @mk a b family ip ha hb h =>
    have hwords : ∀ {name}, (∀ c ∈ name, Text.isBlank c = false) → name.isEmpty = false →
        Text.words (HostsTable.recordText name family ip) = name :: Text.words (Text.join [' ']
          [Decimal.text HostsTable.ttl, "IN".toList, family.text, ip.text]) := by
      intro name hname hne
      have happend := Text.words_append hname (Text.join [' ']
        [Decimal.text HostsTable.ttl, "IN".toList, family.text, ip.text])
      rw [hne] at happend
      exact happend
    have hlength := congrArg List.length h
    rw [Text.lower, Text.lower, List.length_map, List.length_map] at hlength
    cases a with
    | nil =>
      rw [List.length_eq_zero_iff.1 hlength.symm]
      exact alike_refl _
    | cons c a =>
      obtain ⟨d, b, rfl⟩ := List.exists_cons_of_length_eq_add_one hlength.symm
      exact parse_alike (hwords ha rfl) (hwords hb rfl) h

end HostRecord

namespace Resolver

variable {σ : Type}

/-- Nothing, records that differ in the letter case of their owners, or faults. -/
inductive FoundAlike : Except Failure (Option Record) → Except Failure (Option Record) → Prop
  | nothing : FoundAlike (.ok none) (.ok none)
  | record {a b : Record} (h : a.lowerOwner = b.lowerOwner) :
      FoundAlike (.ok (some a)) (.ok (some b))
  | fault (e f : HostRecord.Fault) : FoundAlike (.error e.failure) (.error f.failure)

theorem hostsNames_lower (t : Text) :
    hostsNames (Text.lower t) = (hostsNames t).map Text.lower := by
  rw [hostsNames, Text.before?_lower_dot]
  cases h : Text.before? ['.'] t <;> simp [hostsNames, h]

theorem findSome?_rel {α β γ δ : Type} {A : α → β → Prop} {R : γ → δ → Prop} {f : α → Option γ}
    {g : β → Option δ} (h : ∀ a b, A a b → Option.Rel R (f a) (g b)) {l : List α} {l' : List β}
    (hl : List.Forall₂ A l l') : Option.Rel R (l.findSome? f) (l'.findSome? g) := by
  induction hl with
  | nil => exact .none
  | @cons a b l l' hab hl ih =>
    rw [List.findSome?_cons, List.findSome?_cons]
    generalize hf : f a = x
    generalize hg : g b = y
    have hxy : Option.Rel R x y := hf ▸ hg ▸ h a b hab
    cases hxy with
    | none => exact ih
    | some hr => exact .some hr

/-- Hosts tables give the same for two spellings of a name, each under its spelling. -/
theorem hostsText?_respelled (tables : List HostsTable) (family : Family) {s t : Text}
    (hs : ∀ c ∈ s, Text.isBlank c = false) (ht : ∀ c ∈ t, Text.isBlank c = false)
    (h : Text.lower s = Text.lower t) :
    Option.Rel HostsTable.Respelled (hostsText? (tables.map HostsTable.source) s family)
      (hostsText? (tables.map HostsTable.source) t family) := by
  have hblank : ∀ {s : Text}, (∀ c ∈ s, Text.isBlank c = false) →
      ∀ c ∈ (Text.before? ['.'] s).getD s, Text.isBlank c = false := by
    intro s hs c hc
    unfold Text.before? at hc
    split at hc
    · exact hs c (List.mem_of_mem_take hc)
    · exact hs c hc
  have hnames : List.Forall₂ (fun a b => (∀ c ∈ a, Text.isBlank c = false) ∧
      (∀ c ∈ b, Text.isBlank c = false) ∧ Text.lower a = Text.lower b)
      (hostsNames s) (hostsNames t) := by
    have hlower : (hostsNames s).map Text.lower = (hostsNames t).map Text.lower := by
      rw [← hostsNames_lower, h, hostsNames_lower]
    exact .cons ⟨hblank hs, hblank ht, (List.cons.inj hlower).1⟩ (.cons ⟨hs, ht, h⟩ .nil)
  rw [hostsText?, hostsText?, List.findSome?_map, List.findSome?_map]
  refine findSome?_rel (A := Eq) (fun table _ htable => ?_) (List.forall₂_same.2 fun _ _ => rfl)
  rw [← htable]
  exact findSome?_rel (fun a b hab => table.record?_respelled family hab.1 hab.2.1 hab.2.2) hnames

/-- The text of a name holds no blanks. -/
theorem isBlank_of_mem_text (n : Name) : ∀ c ∈ n.text, Text.isBlank c = false := by
  have hoctet : ∀ b atStart, (Name.octetText atStart b).all (!Text.isBlank ·) = true :=
    forall_octet (by decide +kernel)
  refine Name.forall_mem_text rfl fun l _ b _ atStart c hc => ?_
  simpa using List.all_eq_true.1 (hoctet b atStart) c hc

/-- Hosts tables have the same record for two spellings of a name, each with its spelling. -/
theorem hostsRecord?_respelled {r : Resolver σ} {tables : List HostsTable}
    (hr : r.hosts = tables.map HostsTable.source) (q : Question) {n m : Name}
    (h : n.lower = m.lower) :
    FoundAlike (r.hostsRecord? { q with name := n }) (r.hostsRecord? { q with name := m }) := by
  unfold hostsRecord?
  cases Family.ofType? q.type with
  | none => exact .nothing
  | some family =>
    have hrel := hostsText?_respelled tables family (isBlank_of_mem_text n) (isBlank_of_mem_text m)
      (Name.lower_text_eq_iff.2 h)
    rw [← hr] at hrel
    simp only [Option.bind_some]
    generalize hostsText? r.hosts n.text family = s at hrel ⊢
    generalize hostsText? r.hosts m.text family = t at hrel ⊢
    cases hrel with
    | none => exact .nothing
    | @some s t hst =>
      have hparse := HostRecord.parse_respelled hst
      simp only
      generalize HostRecord.parse s = x at hparse ⊢
      generalize HostRecord.parse t = y at hparse ⊢
      cases hparse with
      | record h => exact .record h
      | fault e f => exact .fault e f

end Resolver

end SplitDns
