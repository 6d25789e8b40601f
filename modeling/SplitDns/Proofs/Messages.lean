import SplitDns.Proofs.Records

/-!
# Messages on the wire

A message that is written whole is read back (`Message.decode?_encode?`), up to what its wire form
cannot carry: the upper bits of the response code stand in the OPT record and are lost without one
(`Message.carried`).  Everything that is read is well-formed (`Message.wellFormed_of_decode?`).
-/

namespace SplitDns

open Reader

/-! ## Questions -/

theorem Question.read_write {whole rest bs : Bytes} {x : Question} {p q : Place}
    (hw : x.write p = some (bs, q)) (hp : p.Sound whole) (hd : whole.drop p.offset = bs ++ rest) :
    bs ≠ [] ∧ q.offset ≤ Place.limit ∧ q.offset = p.offset + bs.length ∧ q.Sound whole ∧
      ∀ rest', (reader whole).run ⟨p.offset, bs ++ rest'⟩ = some (x, ⟨q.offset, rest'⟩) := by
  obtain ⟨⟨name, q₁⟩, hn, h⟩ := Option.bind_eq_some_iff.1 hw
  simp only [Option.ite_none_left_eq_some, Nat.not_lt] at h
  obtain ⟨hlim, h⟩ := h
  cases h
  rw [List.append_assoc, List.append_assoc] at hd
  obtain ⟨hne, ho, hs, hr⟩ := Name.read_write hn hp hd
  refine ⟨by simp [hne], hlim, ?_, hs.skip 4, fun rest' => ?_⟩
  · rw [List.length_append, List.length_append, Nat.add_assoc, ← Nat.add_assoc p.offset, ← ho]
    rfl
  · rw [List.append_assoc, List.append_assoc, reader, run_bind_of (hr _),
      run_bind_of (word16_run _ _ _), run_bind_of (word16_run _ _ _)]
    rfl

/-- Questions that are written at a sound place of a message are read back there. -/
theorem Section.read_writeQuestions {whole : Bytes} : ∀ {xs : List Question} {p q : Place}
    {bs rest : Bytes}, writeQuestions xs p = some (bs, q) → p.Sound whole →
      whole.drop p.offset = bs ++ rest →
      xs.length ≤ bs.length ∧ q.offset = p.offset + bs.length ∧ q.Sound whole ∧
        (p.offset ≤ Place.limit → q.offset ≤ Place.limit) ∧
        ∀ rest', (times (Question.reader whole) xs.length).run ⟨p.offset, bs ++ rest'⟩ =
          some (xs, ⟨q.offset, rest'⟩)
  | [], p, q, bs, rest, hw, hp, _ => by
      cases hw
      exact ⟨Nat.le_refl _, rfl, hp, id, fun rest' => rfl⟩
  | x :: xs, p, q, bs, rest, hw, hp, hd => by
      obtain ⟨⟨cs, p'⟩, hx, hw⟩ := Option.bind_eq_some_iff.1 hw
      obtain ⟨⟨ds, q'⟩, hxs, hw⟩ := Option.bind_eq_some_iff.1 hw
      cases hw
      rw [List.append_assoc] at hd
      obtain ⟨hne, hlim, ho, hs, hr⟩ := Question.read_write hx hp hd
      obtain ⟨hle, ho', hs', hlim', hr'⟩ := read_writeQuestions hxs hs (drop_past hd ho)
      have hpos := List.length_pos_iff.2 hne
      rw [List.length_append, List.length_cons]
      refine ⟨by omega, by omega, hs', fun _ => hlim' hlim, fun rest' => ?_⟩
      rw [List.append_assoc]
      exact times_succ_run (hr _) (hr' rest')

/-! ## Entries of the sections -/

namespace Entry

theorem plain?_map_record {rs : List Record} (h : ∀ r ∈ rs, r.type ∉ additionalTypes) :
    plain? (rs.map record) = some rs := by
  induction rs with
  | nil => rfl
  | cons r rs ih =>
    have hr : ¬ additionalTypes.contains r.type = true := by simpa using h r (by simp)
    rw [List.map_cons, plain?, if_neg hr, ih fun x hx => h x (by simp [hx])]
    rfl

theorem eq_of_plain? {es : List Entry} {rs : List Record} (h : plain? es = some rs) :
    es = rs.map record ∧ ∀ r ∈ rs, r.type ∉ additionalTypes := by
  induction es generalizing rs with
  | nil =>
    cases h
    simp
  | cons e es ih =>
    cases e with
    | edns e => cases h
    | record r =>
      unfold plain? at h
      split at h
      · cases h
      next hr =>
        obtain ⟨rs', hrs, rfl⟩ := Option.map_eq_some_iff.1 h
        obtain ⟨rfl, hall⟩ := ih hrs
        refine ⟨rfl, fun x hx => ?_⟩
        rcases List.mem_cons.1 hx with rfl | hx
        · simpa using hr
        · exact hall x hx

theorem wellFormed_of_times {whole : Bytes} {n : Nat} {c d : Cursor} {es : List Entry}
    (h : (times (reader whole) n).run c = some (es, d)) : ∀ e ∈ es, e.WellFormed :=
  forall_mem_of_times (fun _ _ _ he => wellFormed_of_reader he) h

theorem wellFormed_of_plain? {es : List Entry} {rs : List Record} (h : ∀ e ∈ es, e.WellFormed)
    (hp : plain? es = some rs) : ∀ r ∈ rs, r.WellFormed ∧ r.type ∉ additionalTypes := by
  obtain ⟨rfl, hall⟩ := eq_of_plain? hp
  exact fun r hr => ⟨h _ (List.mem_map.2 ⟨r, hr, rfl⟩), hall r hr⟩

theorem parts_append (rs : List Record) (es : List Edns) :
    parts (rs.map record ++ es.map edns) = (rs, es) := by
  induction rs with
  | nil =>
    induction es with
    | nil => rfl
    | cons e es ih =>
      simp only [List.map_nil, List.nil_append] at ih
      simp only [List.map_nil, List.map_cons, List.nil_append, parts, ih]
  | cons r rs ih => simp only [List.map_cons, List.cons_append, parts, ih]

theorem mem_parts (es : List Entry) :
    (∀ r ∈ (parts es).1, record r ∈ es) ∧ ∀ e ∈ (parts es).2, edns e ∈ es := by
  induction es with
  | nil => simp [parts]
  | cons x es ih =>
    cases x with
    | record r =>
      simp only [parts, List.mem_cons]
      exact ⟨fun r' hr => hr.imp (congrArg record) (ih.1 r'), fun e he => .inr (ih.2 e he)⟩
    | edns e =>
      simp only [parts, List.mem_cons]
      exact ⟨fun r hr => .inr (ih.1 r hr), fun e' he => he.imp (congrArg edns) (ih.2 e')⟩

end Entry

/-! ## Well-formed messages -/

namespace Message

/-- Whether the records and the EDNS section of a message are as they are read. -/
structure WellFormed (m : Message) : Prop where
  answers : ∀ r ∈ m.answers, r.WellFormed ∧ r.type ∉ Entry.additionalTypes
  authorities : ∀ r ∈ m.authorities, r.WellFormed ∧ r.type ∉ Entry.additionalTypes
  additionals : ∀ r ∈ m.additionals, r.WellFormed
  edns : ∀ e ∈ m.edns, e.WellFormed

instance (m : Message) : Decidable m.WellFormed :=
  decidable_of_iff ((∀ r ∈ m.answers, r.WellFormed ∧ r.type ∉ Entry.additionalTypes) ∧
    (∀ r ∈ m.authorities, r.WellFormed ∧ r.type ∉ Entry.additionalTypes) ∧
    (∀ r ∈ m.additionals, r.WellFormed) ∧ ∀ e ∈ m.edns, e.WellFormed)
    ⟨fun ⟨h₁, h₂, h₃, h₄⟩ => ⟨h₁, h₂, h₃, h₄⟩, fun ⟨h₁, h₂, h₃, h₄⟩ => ⟨h₁, h₂, h₃, h₄⟩⟩

/-- What a message that is read is made of: two octets of flags and the entries of its sections. -/
theorem exists_entries_of_decode? {bs : Bytes} {m : Message} (h : decode? bs = some m) :
    ∃ (id : UInt16) (high low : UInt8) (es₁ es₂ es₃ : List Entry),
      m.header = m.edns.elim (Header.ofFlags id high low)
          (fun e => (Header.ofFlags id high low).withRcodeHigh e.rcodeHigh) ∧
        (∀ e ∈ es₁ ++ es₂ ++ es₃, e.WellFormed) ∧ Entry.plain? es₁ = some m.answers ∧
        Entry.plain? es₂ = some m.authorities ∧
        Entry.parts es₃ = (m.additionals, m.edns.toList) := by
  obtain ⟨⟨m', c⟩, hr, rfl⟩ := Option.map_eq_some_iff.1 h
  unfold reader at hr
  obtain ⟨id, c₁, -, hr⟩ := run_bind_eq_some.1 hr
  obtain ⟨high, c₂, -, hr⟩ := run_bind_eq_some.1 hr
  obtain ⟨low, c₃, -, hr⟩ := run_bind_eq_some.1 hr
  obtain ⟨n₁, c₄, -, hr⟩ := run_bind_eq_some.1 hr
  obtain ⟨n₂, c₅, -, hr⟩ := run_bind_eq_some.1 hr
  obtain ⟨n₃, c₆, -, hr⟩ := run_bind_eq_some.1 hr
  obtain ⟨n₄, c₇, -, hr⟩ := run_bind_eq_some.1 hr
  obtain ⟨questions, c₈, -, hr⟩ := run_bind_eq_some.1 hr
  obtain ⟨es₁, c₉, hes₁, hr⟩ := run_bind_eq_some.1 hr
  cases hp₁ : Entry.plain? es₁ with
  | none => rw [hp₁] at hr; cases hr
  | some answers =>
    rw [hp₁] at hr
    obtain ⟨es₂, c₁₀, hes₂, hr⟩ := run_bind_eq_some.1 hr
    cases hp₂ : Entry.plain? es₂ with
    | none => rw [hp₂] at hr; cases hr
    | some authorities =>
      rw [hp₂] at hr
      obtain ⟨es₃, c₁₁, hes₃, hr⟩ := run_bind_eq_some.1 hr
      have hes : ∀ e ∈ es₁ ++ es₂ ++ es₃, e.WellFormed := by
        simp only [List.forall_mem_append]
        exact ⟨⟨Entry.wellFormed_of_times hes₁, Entry.wellFormed_of_times hes₂⟩,
          Entry.wellFormed_of_times hes₃⟩
      refine ⟨id, high, low, es₁, es₂, es₃, ?_⟩
      cases hparts : Entry.parts es₃ with
      | mk additionals sections =>
        rw [hparts] at hr
        match sections with
        | [] => cases hr; exact ⟨rfl, hes, hp₁, hp₂, rfl⟩
        | [e] => cases hr; exact ⟨rfl, hes, hp₁, hp₂, rfl⟩
        | _ :: _ :: _ => cases hr

theorem wellFormed_of_decode? {bs : Bytes} {m : Message} (h : decode? bs = some m) :
    m.WellFormed := by
  obtain ⟨id, high, low, es₁, es₂, es₃, -, hes, hp₁, hp₂, hparts⟩ := exists_entries_of_decode? h
  simp only [List.forall_mem_append] at hes
  obtain ⟨⟨hes₁, hes₂⟩, hes₃⟩ := hes
  obtain ⟨hrecords, hsections⟩ := Entry.mem_parts es₃
  rw [hparts] at hrecords hsections
  exact ⟨Entry.wellFormed_of_plain? hes₁ hp₁, Entry.wellFormed_of_plain? hes₂ hp₂,
    fun r hr => hes₃ _ (hrecords r hr),
    fun e he => hes₃ _ (hsections e (Option.mem_toList.2 he))⟩

theorem forall_map_record {rs : List Record} (h : ∀ r ∈ rs, r.WellFormed) :
    ∀ e ∈ rs.map Entry.record, e.WellFormed := by
  intro e he
  obtain ⟨r, hr, rfl⟩ := List.mem_map.1 he
  exact h r hr

theorem wellFormed_writtenEdns {m : Message} (hm : m.WellFormed) :
    ∀ e ∈ m.writtenEdns.toList.map Entry.edns, e.WellFormed := by
  intro e he
  obtain ⟨e', he', rfl⟩ := List.mem_map.1 he
  obtain ⟨e, hm', rfl⟩ := Option.map_eq_some_iff.1 (Option.mem_toList.1 he')
  exact hm.edns e hm'

/-! ## Round trip -/

/-- A message as its wire form carries it.  The upper bits of the response code stand in the OPT
record and nowhere else. -/
def carried (m : Message) : Message :=
  { m with
    header := if m.edns.isSome then m.header else m.header.withoutRcodeHigh
    edns := m.writtenEdns }

/-- Whether a body is what is written of a message, be its options writable or not. -/
def WrittenAs (m : Message) (b : Body) : Prop :=
  ∃ p₁ p₂ p₃ p₄ p₅, Section.writeQuestions m.questions (Place.start 12) = some (b.questions, p₁) ∧
    Section.write m.answers p₁ = (b.answers, p₂) ∧
    Section.write m.authorities p₂ = (b.authorities, p₃) ∧
    Section.write m.additionals p₃ = (b.additionals, p₄) ∧
    Section.write (m.writtenEdns.toList.map Edns.record) p₄ = (b.opt, p₅)

theorem body?_eq_some_iff {m : Message} {b : Body} :
    m.body? = some b ↔ m.WrittenAs b ∧ m.edns.all Edns.writable = true := by
  constructor
  · intro h
    obtain ⟨⟨questions, p₁⟩, hq, h⟩ := Option.bind_eq_some_iff.1 h
    simp only [Option.ite_none_right_eq_some] at h
    obtain ⟨hw, h⟩ := h
    cases h
    exact ⟨⟨p₁, _, _, _, _, hq, rfl, rfl, rfl, rfl⟩, hw⟩
  · rintro ⟨⟨p₁, p₂, p₃, p₄, p₅, hq, h₁, h₂, h₃, h₄⟩, hw⟩
    rw [body?, hq, Option.bind_eq_bind, Option.bind_some]
    simp only [h₁, h₂, h₃, h₄, hw, if_true]
    rfl

/-- The octets of a message with a body that is written whole. -/
def wire (m : Message) (b : Body) : Bytes :=
  m.header.octets ++
    [m.questions.length, b.answers.count, b.authorities.count,
      b.additionals.count + b.opt.count].flatMap (fun n => Word.octets16 (UInt16.ofNat n)) ++
    b.octets

theorem encode?_eq_wire {m : Message} {b : Body} (hb : m.body? = some b)
    (hc : b.complete = true) : m.encode? = some (m.wire b) := by
  rw [encode?, hb, Option.bind_eq_bind, Option.bind_some, hc]
  simp only [Bool.not_true, Bool.or_false]
  rfl

theorem entries_writtenEdns (m : Message) :
    m.writtenEdns.toList.map Edns.record = (m.writtenEdns.toList.map Entry.edns).map
      Entry.toRecord := by
  rw [List.map_map]
  rfl

/-- Whether all questions, records and the EDNS section of a message are written within the limit
of the encoder. -/
def FitsWhole (m : Message) : Prop :=
  ∃ b, m.body? = some b ∧ b.complete = true

instance (m : Message) : Decidable m.FitsWhole :=
  decidable_of_iff (m.body?.any Body.complete = true) (by simp [FitsWhole, Option.any_eq_true])

/-- Where the parts of a message stand that is written whole: `p₁` to `p₄` are the places after its
questions, answers, authorities and additional records. -/
structure Stands (whole : Bytes) (m : Message) (b : Body) (p₁ p₂ p₃ p₄ : Place) : Prop where
  count : m.questions.length ≤ Place.limit
  questions : ∀ rest, (times (Question.reader whole) m.questions.length).run
    ⟨12, b.questions ++ rest⟩ = some (m.questions, ⟨p₁.offset, rest⟩)
  answers : b.answers.Holds whole (m.answers.map Entry.record) p₁ p₂
  authorities : b.authorities.Holds whole (m.authorities.map Entry.record) p₂ p₃
  additionals : (b.additionals.append b.opt).Holds whole
    (m.additionals.map Entry.record ++ m.writtenEdns.toList.map Entry.edns) p₃ p₄
  limit : p₄.offset ≤ Place.limit

theorem Stands.counts_le {whole : Bytes} {m : Message} {b : Body} {p₁ p₂ p₃ p₄ : Place}
    (h : Stands whole m b p₁ p₂ p₃ p₄) : b.answers.count ≤ 65535 ∧ b.authorities.count ≤ 65535 ∧
      b.additionals.count + b.opt.count ≤ 65535 := by
  have hA := h.answers.count_le
  have hB := h.authorities.count_le
  have hC := h.additionals.count_le
  have hA' := h.answers.offset
  have hB' := h.authorities.offset
  have hC' := h.additionals.offset
  have hlim : p₄.offset ≤ 65535 := h.limit
  simp only [Section.append] at hC
  simp only [Section.append] at hC'
  omega

theorem exists_stands {whole : Bytes} {m : Message} {b : Body} (hm : m.WellFormed)
    (hb : m.WrittenAs b) (hc : b.complete = true) (hd : whole.drop 12 = b.octets) :
    ∃ p₁ p₂ p₃ p₄, Stands whole m b p₁ p₂ p₃ p₄ := by
  obtain ⟨p₁, p₂, p₃, p₄, p₅, hq, h₁, h₂, h₃, h₄⟩ := hb
  simp only [Body.complete, Body.sections, List.all_cons, List.all_nil, Bool.and_true,
    Bool.and_eq_true] at hc
  obtain ⟨hc₁, hc₂, hc₃, hc₄⟩ := hc
  simp only [Body.octets, Body.sections, List.flatMap_cons, List.flatMap_nil] at hd
  rw [entries_writtenEdns] at h₄
  have hmap : ∀ rs : List Record, (rs.map Entry.record).map Entry.toRecord = rs := fun rs => by
    rw [List.map_map]
    exact List.map_id rs
  rw [← hmap m.answers] at h₁
  rw [← hmap m.authorities] at h₂
  rw [← hmap m.additionals] at h₃
  obtain ⟨hle, ho, hs, hlim, hr⟩ :=
    Section.read_writeQuestions hq (Place.sound_start whole 12) hd
  have hd₁ := drop_past hd ho
  have hA := Section.holds_of_write (forall_map_record fun r h => (hm.answers r h).1) h₁ hc₁ hs hd₁
  have hd₂ := drop_past hd₁ hA.offset
  have hB := Section.holds_of_write (forall_map_record fun r h => (hm.authorities r h).1) h₂ hc₂
    hA.sound hd₂
  have hd₃ := drop_past hd₂ hB.offset
  have hC := Section.holds_of_write (forall_map_record hm.additionals) h₃ hc₃ hB.sound hd₃
  have hd₄ := drop_past hd₃ hC.offset
  have hD := Section.holds_of_write (wellFormed_writtenEdns hm) h₄ hc₄ hC.sound hd₄
  have hlim := hD.limit (hC.limit (hB.limit (hA.limit (hlim (by decide)))))
  have hA' := hA.offset
  have hB' := hB.offset
  have hC' := hC.offset
  have hD' := hD.offset
  exact ⟨p₁, p₂, p₃, p₅, by omega, hr, hA, hB, hC.append hD, hlim⟩

theorem drop_wire (m : Message) (b : Body) : (m.wire b).drop 12 = b.octets :=
  rfl

/-- A message is read back from its octets, up to what they cannot carry. -/
theorem decode?_wire {m : Message} {b : Body} {p₁ p₂ p₃ p₄ : Place} (hm : m.WellFormed)
    (h : Stands (m.wire b) m b p₁ p₂ p₃ p₄) : decode? (m.wire b) = some m.carried := by
  obtain ⟨high, low, hflags, hheader⟩ := Header.ofFlags_octets m.header
  have hw : m.wire b = Word.octets16 m.header.id ++ (high :: low ::
      (Word.octets16 (UInt16.ofNat m.questions.length) ++
        (Word.octets16 (UInt16.ofNat b.answers.count) ++
          (Word.octets16 (UInt16.ofNat b.authorities.count) ++
            (Word.octets16 (UInt16.ofNat (b.additionals.count + b.opt.count)) ++
              b.octets))))) := by
    simp only [wire, hflags, List.flatMap_cons, List.flatMap_nil, List.append_assoc,
      List.nil_append, List.cons_append]
  generalize m.wire b = whole at h hw
  have hoct : b.octets = b.questions ++ (b.answers.octets ++ (b.authorities.octets ++
      ((b.additionals.append b.opt).octets ++ []))) := by
    simp only [Body.octets, Body.sections, Section.append, List.flatMap_cons, List.flatMap_nil,
      List.append_nil]
  obtain ⟨hA, hB, hC⟩ := h.counts_le
  have hread : (reader whole).run ⟨0, whole⟩ = some (m.carried, ⟨p₄.offset, []⟩) := by
    rw [congrArg (fun bs => (reader whole).run ⟨0, bs⟩) hw]
    rw [reader, run_bind_of (word16_run _ _ _), run_bind_of (octet_run _ _ _),
      run_bind_of (octet_run _ _ _), run_bind_of (word16_run _ _ _),
      run_bind_of (word16_run _ _ _), run_bind_of (word16_run _ _ _),
      run_bind_of (word16_run _ _ _), Word.toNat_ofNat16 h.count, Word.toNat_ofNat16 hA,
      Word.toNat_ofNat16 hB, Word.toNat_ofNat16 hC, hoct, hheader]
    rw [run_bind_of (h.questions _), h.answers.count, run_bind_of (h.answers.read _),
      Entry.plain?_map_record fun r hr => (hm.answers r hr).2]
    simp only
    rw [h.authorities.count, run_bind_of (h.authorities.read _),
      Entry.plain?_map_record fun r hr => (hm.authorities r hr).2]
    simp only
    have hcount := h.additionals.count
    simp only [Section.append] at hcount
    rw [hcount, run_bind_of (h.additionals.read []), Entry.parts_append]
    simp only [carried, writtenEdns]
    cases m.edns with
    | none => rfl
    | some e =>
      simp only [Option.map_some, Option.toList_some]
      rw [Header.withRcodeHigh_withoutRcodeHigh]
      rfl
  rw [decode?, hread]
  rfl

/-- What is written of a message, if it is all of it, is read as that message, be its options
writable or not. -/
theorem decode?_wire_of_writtenAs {m : Message} {b : Body} (hm : m.WellFormed)
    (hb : m.WrittenAs b) (hc : b.complete = true) : decode? (m.wire b) = some m.carried := by
  obtain ⟨p₁, p₂, p₃, p₄, h⟩ := exists_stands hm hb hc (drop_wire m b)
  exact decode?_wire hm h

/-- A message that is written whole is read back, up to what its wire form cannot carry. -/
theorem decode?_encode? {m : Message} (hm : m.WellFormed) (hfit : m.FitsWhole) :
    ∃ bs, m.encode? = some bs ∧ decode? bs = some m.carried := by
  obtain ⟨b, hb, hc⟩ := hfit
  exact ⟨m.wire b, encode?_eq_wire hb hc,
    decode?_wire_of_writtenAs hm (body?_eq_some_iff.1 hb).1 hc⟩

theorem decode?_of_encode? {m : Message} {bs : Bytes} (hm : m.WellFormed) (hfit : m.FitsWhole)
    (hcarried : m.carried = m) (h : m.encode? = some bs) : decode? bs = some m := by
  obtain ⟨bs', h', hback⟩ := decode?_encode? hm hfit
  rw [h'] at h
  cases h
  rw [hback, hcarried]

end Message

end SplitDns
