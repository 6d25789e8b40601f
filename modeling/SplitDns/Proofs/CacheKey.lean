import SplitDns.Cache.Key
import SplitDns.Proofs.Messages
import SplitDns.Proofs.NameText
import SplitDns.Resolver.Reply

/-!
# Cache keys tell requests apart

The extra records of a request are read back from the octets that stand for them in its cache key,
which hold no count: they are read to the end (`Reader.times_unique`).  With `lower_text_eq_iff` for
the question, a key determines the query that is sent to servers up to its id and letter case
(`CacheKey.of_eq_iff`).
-/

namespace SplitDns

open Reader

/-! ## Reading to the end -/

namespace Reader

variable {α : Type}

/-- Values of which each takes some octets can be read to the end of the octets in one way only. -/
theorem times_unique {one : Reader α} (hone : ∀ p, one.run ⟨p, []⟩ = none) :
    ∀ {n k : Nat} {c : Cursor} {p q : Nat} {as bs : List α},
      (times one n).run c = some (as, ⟨p, []⟩) → (times one k).run c = some (bs, ⟨q, []⟩) →
        as = bs
  | 0, 0, c, p, q, as, bs, ha, hb => by
      cases ha
      cases hb
      rfl
  | 0, k + 1, c, p, q, as, bs, ha, hb => by
      cases ha
      obtain ⟨b, d, hb, -⟩ := run_bind_eq_some.1 hb
      rw [hone] at hb
      cases hb
  | n + 1, 0, c, p, q, as, bs, ha, hb => by
      cases hb
      obtain ⟨a, d, ha, -⟩ := run_bind_eq_some.1 ha
      rw [hone] at ha
      cases ha
  | n + 1, k + 1, c, p, q, as, bs, ha, hb => by
      obtain ⟨a, d, h, ha⟩ := run_bind_eq_some.1 ha
      obtain ⟨as', d', has, ha⟩ := run_bind_eq_some.1 ha
      obtain ⟨b, e, h', hb⟩ := run_bind_eq_some.1 hb
      obtain ⟨bs', e', hbs, hb⟩ := run_bind_eq_some.1 hb
      cases ha
      cases hb
      rw [h] at h'
      cases h'
      rw [times_unique hone has hbs]

end Reader

theorem Entry.reader_run_nil (whole : Bytes) (p : Nat) : (reader whole).run ⟨p, []⟩ = none := by
  have hname : (Reader.name whole).run ⟨p, []⟩ = none := by
    show (Reader.labels whole whole.length p ⟨p, []⟩).bind _ = none
    rw [Reader.labels]
    split <;> rfl
  rw [reader, StateT.run_bind, hname]
  rfl

/-- Two sections that are written whole from the same place on hold the same entries when their
octets are the same. -/
theorem Section.entries_unique {es fs : List Entry} {s t : Section} {q r : Place}
    (hes : ∀ e ∈ es, e.WellFormed) (hfs : ∀ e ∈ fs, e.WellFormed)
    (hs : write (es.map Entry.toRecord) (Place.start 0) = (s, q)) (hsc : s.complete = true)
    (ht : write (fs.map Entry.toRecord) (Place.start 0) = (t, r)) (htc : t.complete = true)
    (hoct : s.octets = t.octets) : es = fs := by
  have hs := holds_of_write hes hs hsc (Place.sound_start s.octets 0) (List.append_nil _).symm
  have ht := holds_of_write hfs ht htc (Place.sound_start t.octets 0) (List.append_nil _).symm
  rw [← hoct] at ht
  have hr := ht.read []
  rw [← hoct] at hr
  exact times_unique (Entry.reader_run_nil s.octets) (hs.read []) hr

/-- A question with its name in small letters. -/
def Question.lower (q : Question) : Question :=
  { q with name := q.name.lower }

/-! ## Extra records -/

namespace Message

/-- The additional records and the EDNS section of a message as entries on the wire. -/
def extraEntries (m : Message) : List Entry :=
  m.additionals.map Entry.record ++ m.edns.toList.map Entry.edns

theorem map_toRecord_extraEntries (m : Message) :
    m.extraEntries.map Entry.toRecord = m.extras := by
  rw [extraEntries, List.map_append, List.map_map, List.map_map, extras]
  exact congrArg (· ++ _) (List.map_id m.additionals)

theorem wellFormed_extraEntries {m : Message} (hm : m.WellFormed) :
    ∀ e ∈ m.extraEntries, e.WellFormed := by
  intro e he
  rcases List.mem_append.1 he with he | he
  · exact forall_map_record hm.additionals e he
  · obtain ⟨e', he', rfl⟩ := List.mem_map.1 he
    exact hm.edns e' (Option.mem_toList.1 he')

/-- Whether the records that a request brings along are written whole where they stand alone, as
they do in its cache key. -/
def ExtrasFit (m : Message) : Prop :=
  (Section.write m.extras (Place.start 0)).1.complete = true ∧ m.edns.all Edns.writable = true

instance (m : Message) : Decidable m.ExtrasFit := by
  unfold ExtrasFit
  infer_instance

theorem parts_extraEntries (m : Message) :
    Entry.parts m.extraEntries = (m.additionals, m.edns.toList) :=
  Entry.parts_append m.additionals m.edns.toList

theorem write_extraEntries {m : Message} (hf : m.ExtrasFit) :
    ∃ s q, Section.write (m.extraEntries.map Entry.toRecord) (Place.start 0) = (s, q) ∧
      s.complete = true ∧ (Section.write m.extras (Place.start 0)).1 = s := by
  rw [map_toRecord_extraEntries]
  exact ⟨_, _, rfl, hf.1, rfl⟩

/-- The octets of extra records in a key determine the additional records and the EDNS section. -/
theorem extras_unique {m n : Message} (hm : m.WellFormed) (hn : n.WellFormed) (hfm : m.ExtrasFit)
    (hfn : n.ExtrasFit) (h : (Section.write m.extras (Place.start 0)).1.octets =
      (Section.write n.extras (Place.start 0)).1.octets) :
    m.additionals = n.additionals ∧ m.edns = n.edns := by
  obtain ⟨s, q, hs, hsc, hsm⟩ := write_extraEntries hfm
  obtain ⟨t, r, ht, htc, htn⟩ := write_extraEntries hfn
  rw [hsm, htn] at h
  have he := Section.entries_unique (wellFormed_extraEntries hm) (wellFormed_extraEntries hn) hs hsc
    ht htc h
  have hp := congrArg Entry.parts he
  rw [parts_extraEntries, parts_extraEntries, Prod.mk.injEq] at hp
  refine ⟨hp.1, ?_⟩
  have hhead := congrArg List.head? hp.2
  rwa [Option.head?_toList, Option.head?_toList] at hhead

theorem extras_congr {m n : Message} (h : m.additionals = n.additionals ∧ m.edns = n.edns) :
    m.extras = n.extras := by
  rw [extras, extras, h.1, h.2]

/-- Whether two queries are the same up to their ids and the letter case of the names they ask
for. -/
def Alike (m n : Message) : Prop :=
  m.questions.map Question.lower = n.questions.map Question.lower ∧
    { m with header := { m.header with id := n.header.id }, questions := n.questions } = n

end Message

/-! ## Keys -/

namespace CacheKey

/-- What a key says of the request that it was made for. -/
theorem parts_of_eq {r₁ r₂ : Message} {q₁ q₂ : Question} (h₁ : r₁.WellFormed) (h₂ : r₂.WellFormed)
    (hf₁ : r₁.ExtrasFit) (hf₂ : r₂.ExtrasFit) (h : of q₁ r₁.extras = of q₂ r₂.extras) :
    q₁.lower = q₂.lower ∧ r₁.additionals = r₂.additionals ∧ r₁.edns = r₂.edns := by
  simp only [of, mk.injEq] at h
  obtain ⟨hname, htype, hclass, hextra⟩ := h
  refine ⟨?_, Message.extras_unique h₁ h₂ hf₁ hf₂ hextra⟩
  rw [Question.lower, Question.lower, Name.lower_text_eq_iff.1 hname, htype, hclass]

/-- Keys for questions of two requests are equal exactly when the questions are, letter case aside,
and the records that come along with the requests.  Then the questions are forwarded alike. -/
theorem of_eq_iff {bs₁ bs₂ : Bytes} {r₁ r₂ : Message} {q₁ q₂ : Question}
    (h₁ : Message.decode? bs₁ = some r₁) (h₂ : Message.decode? bs₂ = some r₂)
    (hf₁ : r₁.ExtrasFit) (hf₂ : r₂.ExtrasFit) :
    (of q₁ r₁.extras = of q₂ r₂.extras ↔
      q₁.name.lower = q₂.name.lower ∧ q₁.type = q₂.type ∧ q₁.dnsClass = q₂.dnsClass ∧
        r₁.extras = r₂.extras) ∧
    (r₁.extras = r₂.extras ↔ r₁.additionals = r₂.additionals ∧ r₁.edns = r₂.edns) ∧
    (of q₁ r₁.extras = of q₂ r₂.extras → ∀ id₁ id₂,
      (Message.queryFor q₁ r₁ id₁).Alike (Message.queryFor q₂ r₂ id₂)) := by
  have hw₁ := Message.wellFormed_of_decode? h₁
  have hw₂ := Message.wellFormed_of_decode? h₂
  refine ⟨⟨fun h => ?_, fun ⟨hname, htype, hclass, hextras⟩ => ?_⟩,
    ⟨fun h => ?_, Message.extras_congr⟩, fun h id₁ id₂ => ?_⟩
  · obtain ⟨hq, hextras⟩ := parts_of_eq hw₁ hw₂ hf₁ hf₂ h
    simp only [Question.lower, Question.mk.injEq] at hq
    exact ⟨hq.1, hq.2.1, hq.2.2, Message.extras_congr hextras⟩
  · rw [of, of, Name.lower_text_eq_iff.2 hname, htype, hclass, hextras]
  · exact Message.extras_unique hw₁ hw₂ hf₁ hf₂ (by rw [h])
  · obtain ⟨hq, hadd, hedns⟩ := parts_of_eq hw₁ hw₂ hf₁ hf₂ h
    refine ⟨?_, ?_⟩
    · simp only [Message.queryFor, List.map_cons, List.map_nil, hq]
    · simp only [Message.queryFor, hadd, hedns]
      rfl

/-- Two requests with other ids and flags and one question more have one key: they ask for `A.` and
for `a.`, both with an EDNS section. -/
theorem of_eq_iff_letter_case :
    ∃ r₁ r₂ : Message, ∃ q₁ ∈ r₁.questions.head?, ∃ q₂ ∈ r₂.questions.head?,
      Message.decode? [0, 1, 1, 0, 0, 1, 0, 0, 0, 0, 0, 1, 1, 65, 0, 0, 1, 0, 1,
        0, 0, 41, 4, 208, 0, 0, 0, 0, 0, 0] = some r₁ ∧
      Message.decode? [0, 2, 0, 16, 0, 2, 0, 0, 0, 0, 0, 1, 1, 97, 0, 0, 1, 0, 1, 1, 98, 0,
        0, 1, 0, 1, 0, 0, 41, 4, 208, 0, 0, 0, 0, 0, 0] = some r₂ ∧
      r₁.ExtrasFit ∧ r₂.ExtrasFit ∧ r₁.header ≠ r₂.header ∧
      of q₁ r₁.extras = of q₂ r₂.extras ∧
      (Message.queryFor q₁ r₁ 7).Alike (Message.queryFor q₂ r₂ 8) := by
  let edns : Edns := ⟨1232, 0, 0, 0, []⟩
  let r₁ : Message :=
    { Message.bare { Header.blank 1 false 0 with recursionDesired := true } with
      questions := [⟨⟨[[65]], by decide⟩, 1, 1⟩]
      edns := some edns }
  let r₂ : Message :=
    { Message.bare { Header.blank 2 false 0 with checkingDisabled := true } with
      questions := [⟨⟨[[97]], by decide⟩, 1, 1⟩, ⟨⟨[[98]], by decide⟩, 1, 1⟩]
      edns := some edns }
  have hedns : edns.WellFormed := by decide
  have hw₁ : r₁.WellFormed := by constructor <;> simp [r₁, Message.bare, hedns]
  have hw₂ : r₂.WellFormed := by constructor <;> simp [r₂, Message.bare, hedns]
  have h₁ : Message.decode? [0, 1, 1, 0, 0, 1, 0, 0, 0, 0, 0, 1, 1, 65, 0, 0, 1, 0, 1,
      0, 0, 41, 4, 208, 0, 0, 0, 0, 0, 0] = some r₁ :=
    Message.decode?_of_encode? hw₁ (by decide +kernel) (by decide) (by decide +kernel)
  have h₂ : Message.decode? [0, 2, 0, 16, 0, 2, 0, 0, 0, 0, 0, 1, 1, 97, 0, 0, 1, 0, 1, 1, 98, 0,
      0, 1, 0, 1, 0, 0, 41, 4, 208, 0, 0, 0, 0, 0, 0] = some r₂ :=
    Message.decode?_of_encode? hw₂ (by decide +kernel) (by decide) (by decide +kernel)
  have hf₁ : r₁.ExtrasFit := by decide
  have hf₂ : r₂.ExtrasFit := by decide
  obtain ⟨hkey, -, halike⟩ := @of_eq_iff _ _ r₁ r₂ ⟨⟨[[65]], by decide⟩, 1, 1⟩
    ⟨⟨[[97]], by decide⟩, 1, 1⟩ h₁ h₂ hf₁ hf₂
  have he := hkey.2 (by decide)
  exact ⟨r₁, r₂, _, rfl, _, rfl, h₁, h₂, hf₁, hf₂, by decide, he, halike he 7 8⟩

end CacheKey

end SplitDns
