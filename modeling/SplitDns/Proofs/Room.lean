import SplitDns.Proofs.Messages

/-!
# Room for a message

The encoder gives up on what does not end within its limit, and on a name that would not if it were
written in full.  Where it does not give up, what it writes ends at a place that can be told
beforehand (`Writes`); so a message has a size, and there is room for all of it up to the length of
one name below the limit (`Message.fits_of_size_le`).
-/

namespace SplitDns

/-- Whether there is room for a name of any length at a place. -/
def Place.HasRoom (p : Place) : Prop :=
  p.offset + 254 ≤ Place.limit

theorem Place.HasRoom.of_le {p q : Place} (h : q.HasRoom) (hle : p.offset ≤ q.offset) :
    p.HasRoom :=
  Nat.le_trans (Nat.add_le_add_right hle 254) h

theorem Place.HasRoom.offset_le {p : Place} (h : p.HasRoom) : p.offset ≤ Place.limit :=
  Nat.le_trans (Nat.le_add_right _ 254) h

/-- A part of a message ends at the place `after p` when it is written at `p`, and it is written
when there is room behind it. -/
structure Writes (write : Place → Option (Bytes × Place)) (after : Place → Place) : Prop where
  ends : ∀ {p q bs}, write p = some (bs, q) → q = after p ∧ q.offset = p.offset + bs.length
  grows : ∀ p, p.offset ≤ (after p).offset
  succeeds : ∀ {p}, (after p).HasRoom → ∃ bs, write p = some (bs, after p)

namespace Writes

variable {write write' : Place → Option (Bytes × Place)} {after after' : Place → Place}

/-- Octets, whatever the place. -/
theorem octets (bs : Bytes) : Writes (fun p => some (bs, p.skip bs.length)) (·.skip bs.length) where
  ends h := by
    cases h
    exact ⟨rfl, rfl⟩
  grows p := Nat.le_add_right _ _
  succeeds _ := ⟨_, rfl⟩

/-- A part behind some octets. -/
theorem behind (h : Writes write after) (head : Bytes) :
    Writes (fun p => (write (p.skip head.length)).bind fun w => some (head ++ w.1, w.2))
      (fun p => after (p.skip head.length)) where
  ends he := by
    obtain ⟨⟨bs, q⟩, hw, he⟩ := Option.bind_eq_some_iff.1 he
    cases he
    obtain ⟨hafter, hoff⟩ := h.ends hw
    refine ⟨hafter, hoff.trans ?_⟩
    rw [List.length_append, ← Nat.add_assoc]
    rfl
  grows p := Nat.le_trans (Nat.le_add_right p.offset _) (h.grows (p.skip head.length))
  succeeds hroom := by
    obtain ⟨bs, hw⟩ := h.succeeds hroom
    exact ⟨_, Option.bind_eq_some_iff.2 ⟨_, hw, rfl⟩⟩

/-- Two parts, one behind the other, before some octets. -/
theorem before (h : Writes write after) (h' : Writes write' after') (tail : Bytes) :
    Writes (fun p => (write p).bind fun w => (write' w.2).bind fun w' =>
        some (w.1 ++ w'.1 ++ tail, w'.2.skip tail.length))
      (fun p => (after' (after p)).skip tail.length) where
  ends he := by
    obtain ⟨⟨bs, q⟩, hw, he⟩ := Option.bind_eq_some_iff.1 he
    obtain ⟨⟨cs, q'⟩, hw', he⟩ := Option.bind_eq_some_iff.1 he
    cases he
    obtain ⟨rfl, hoff⟩ := h.ends hw
    obtain ⟨rfl, hoff'⟩ := h'.ends hw'
    refine ⟨rfl, ?_⟩
    simp only [Place.skip, List.length_append] at hoff' ⊢
    omega
  grows p := Nat.le_trans (h.grows p) (Nat.le_trans (h'.grows _) (Nat.le_add_right _ _))
  succeeds {p} hroom := by
    have hroom' : (after' (after p)).HasRoom := hroom.of_le (Nat.le_add_right _ _)
    obtain ⟨cs, hw'⟩ := h'.succeeds hroom'
    obtain ⟨bs, hw⟩ := h.succeeds (hroom'.of_le (h'.grows _))
    exact ⟨_, Option.bind_eq_some_iff.2 ⟨_, hw, Option.bind_eq_some_iff.2 ⟨_, hw', rfl⟩⟩⟩

end Writes

/-! ## Names -/

namespace Name

def after (abbreviate : Bool) (n : Name) (p : Place) : Place :=
  (writeLabels abbreviate (p.offset + (wireLength n.labels - 1)) n.labels p).2

theorem offset_le_after (abbreviate : Bool) (n : Name) (p : Place) :
    p.offset ≤ (n.after abbreviate p).offset := by
  rw [after, writeLabels_offset]
  exact Nat.le_add_right _ _

theorem writes (abbreviate : Bool) (n : Name) :
    Writes (n.write abbreviate) (n.after abbreviate) where
  ends {p q bs} h := by
    simp only [write, Option.ite_none_left_eq_some, Option.some.injEq] at h
    have hoff := writeLabels_offset abbreviate (p.offset + (wireLength n.labels - 1)) n.labels p
    rw [after, h.2] at *
    exact ⟨rfl, hoff⟩
  grows := n.offset_le_after abbreviate
  succeeds {p} h := by
    have hlength := n.fits.2
    have hroom := h.of_le (n.offset_le_after abbreviate p)
    unfold Place.HasRoom at hroom
    exact ⟨_, if_neg (by omega)⟩

end Name

/-! ## Records -/

namespace RecordData

def after : RecordData → Place → Place
  | empty, p => p
  | ipv4 _, p => p.skip 4
  | ipv6 _, p => p.skip 16
  | octets bs, p => p.skip bs.length
  | name n, p => n.after true p
  | mail _ n, p => n.after true (p.skip 2)
  | service _ _ _ n, p => n.after false (p.skip 6)
  | authority primary mailbox _ _ _ _ _, p => (mailbox.after true (primary.after true p)).skip 20

theorem writes (d : RecordData) : Writes d.write d.after := by
  cases d with
  | empty => exact Writes.octets []
  | ipv4 ip => exact Writes.octets ip.octets
  | ipv6 ip =>
    have h := Writes.octets ip.octets
    rw [ip.length_octets] at h
    exact h
  | octets bs => exact Writes.octets bs
  | name n => exact n.writes true
  | mail preference n => exact (n.writes true).behind (Word.octets16 preference)
  | service priority weight port n =>
    exact (n.writes false).behind
      (Word.octets16 priority ++ Word.octets16 weight ++ Word.octets16 port)
  | authority primary mailbox serial refresh retry expire minimum =>
    exact (primary.writes true).before (mailbox.writes true)
      ([serial, refresh, retry, expire, minimum].flatMap Word.octets32)

end RecordData

namespace Record

def after (r : Record) (p : Place) : Place :=
  r.data.after ((r.name.after true p).skip 10)

theorem writes (r : Record) : Writes r.write r.after where
  ends {p q bs} h := by
    obtain ⟨name, q₁, data, hn, hd, -, rfl⟩ := write_eq_some h
    obtain ⟨rfl, hoff₁⟩ := (r.name.writes true).ends hn
    obtain ⟨rfl, hoff₂⟩ := r.data.writes.ends hd
    refine ⟨rfl, ?_⟩
    rw [hoff₂, show ((r.name.after true p).skip 10).offset = p.offset + name.length + 10 from
      congrArg (· + 10) hoff₁]
    simp only [List.length_append, Word.length_octets16, Word.length_octets32]
    omega
  grows p := Nat.le_trans ((r.name.writes true).grows p)
    (Nat.le_trans (Nat.le_add_right _ 10) (r.data.writes.grows ((r.name.after true p).skip 10)))
  succeeds {p} h := by
    obtain ⟨data, hd⟩ := r.data.writes.succeeds h
    have hroom : ((r.name.after true p).skip 10).HasRoom := h.of_le (r.data.writes.grows _)
    obtain ⟨name, hn⟩ := (r.name.writes true).succeeds (hroom.of_le (Nat.le_add_right _ 10))
    exact ⟨_, Option.bind_eq_some_iff.2 ⟨_, hn, Option.bind_eq_some_iff.2 ⟨_, hd,
      if_neg (Nat.not_lt.2 h.offset_le)⟩⟩⟩

end Record

namespace Question

def after (q : Question) (p : Place) : Place :=
  (q.name.after true p).skip 4

theorem writes (q : Question) : Writes q.write q.after where
  ends {p p' bs} h := by
    obtain ⟨⟨name, p₁⟩, hn, h⟩ := Option.bind_eq_some_iff.1 h
    simp only [Option.ite_none_left_eq_some] at h
    obtain ⟨-, h⟩ := h
    cases h
    obtain ⟨rfl, hoff⟩ := (q.name.writes true).ends hn
    refine ⟨rfl, ?_⟩
    rw [List.length_append, List.length_append, Nat.add_assoc, ← Nat.add_assoc p.offset, ← hoff]
    rfl
  grows p := Nat.le_trans ((q.name.writes true).grows p) (Nat.le_add_right _ 4)
  succeeds {p} h := by
    obtain ⟨name, hn⟩ := (q.name.writes true).succeeds (h.of_le (Nat.le_add_right _ 4))
    exact ⟨_, Option.bind_eq_some_iff.2 ⟨_, hn, if_neg (Nat.not_lt.2 h.offset_le)⟩⟩

end Question

/-! ## Sections -/

namespace Section

def afterQuestions (qs : List Question) (p : Place) : Place :=
  qs.foldl (fun p q => q.after p) p

def after (rs : List Record) (p : Place) : Place :=
  rs.foldl (fun p r => r.after p) p

theorem writes_questions (qs : List Question) :
    Writes (writeQuestions qs) (afterQuestions qs) := by
  induction qs with
  | nil => exact Writes.octets []
  | cons q qs ih =>
    have h := q.writes.before ih []
    simp only [List.append_nil] at h
    exact h

theorem offset_le_limit_of_writeQuestions {qs : List Question} {p p' : Place} {bs : Bytes}
    (h : writeQuestions qs p = some (bs, p')) (hp : p.offset ≤ Place.limit) :
    p'.offset ≤ Place.limit := by
  induction qs generalizing p bs with
  | nil =>
    cases h
    exact hp
  | cons q qs ih =>
    obtain ⟨⟨cs, p₁⟩, hq, h⟩ := Option.bind_eq_some_iff.1 h
    obtain ⟨⟨ds, p₂⟩, hqs, h⟩ := Option.bind_eq_some_iff.1 h
    cases h
    obtain ⟨⟨name, p₃⟩, -, hq⟩ := Option.bind_eq_some_iff.1 hq
    simp only [Option.ite_none_left_eq_some, Nat.not_lt] at hq
    obtain ⟨hlim, hq⟩ := hq
    cases hq
    exact ih hqs hlim

theorem offset_le_after (rs : List Record) (p : Place) : p.offset ≤ (after rs p).offset := by
  induction rs generalizing p with
  | nil => exact Nat.le_refl _
  | cons r rs ih => exact Nat.le_trans (r.writes.grows p) (ih _)

theorem after_append (rs ss : List Record) (p : Place) :
    after (rs ++ ss) p = after ss (after rs p) :=
  List.foldl_append

/-- A section that is written to its end ends where it was foreseen to, and within the limit. -/
theorem ends_of_write {rs : List Record} {p q : Place} {s : Section} (hw : write rs p = (s, q))
    (hs : s.complete = true) :
    q = after rs p ∧ q.offset = p.offset + s.octets.length ∧
      (p.offset ≤ Place.limit → q.offset ≤ Place.limit) := by
  induction rs generalizing p s with
  | nil =>
    cases hw
    exact ⟨rfl, rfl, id⟩
  | cons r rs ih =>
    obtain ⟨bs, p', s', hr, hw', hs', hoct, -⟩ := write_cons_complete hw hs
    obtain ⟨rfl, hoff⟩ := r.writes.ends hr
    obtain ⟨-, -, -, -, -, hlim, -⟩ := Record.write_eq_some hr
    obtain ⟨hq, hoff', hlim'⟩ := ih hw' hs'
    refine ⟨hq, ?_, fun _ => hlim' hlim⟩
    rw [hoff', hoff, hoct, List.length_append, Nat.add_assoc]

theorem complete_of_room {rs : List Record} {p : Place}
    (h : (after rs p).HasRoom) : (write rs p).1.complete = true := by
  induction rs generalizing p with
  | nil => rfl
  | cons r rs ih =>
    obtain ⟨bs, hr⟩ := r.writes.succeeds (h.of_le (offset_le_after rs (r.after p)))
    rw [write, hr]
    exact ih h

/-- Two sections are written to their ends when they are as one. -/
theorem complete_append (rs ss : List Record) (p : Place) :
    (write (rs ++ ss) p).1.complete =
      ((write rs p).1.complete && (write ss (write rs p).2).1.complete) := by
  induction rs generalizing p with
  | nil => rfl
  | cons r rs ih =>
    rw [List.cons_append, write, write]
    cases r.write p with
    | none => rfl
    | some written => exact ih _

end Section

/-! ## Messages -/

namespace Message

/-- The records of a message in the order in which they are written. -/
def written (m : Message) : List Record :=
  m.answers ++ (m.authorities ++ (m.additionals ++ m.writtenEdns.toList.map Edns.record))

/-- The length of a message, were there no limit. -/
def size (m : Message) : Nat :=
  (Section.after m.written (Section.afterQuestions m.questions (Place.start 12))).offset

/-- Whether there is room for all questions and records of a message. -/
def Fits (m : Message) : Prop :=
  ∃ b, m.WrittenAs b ∧ b.complete = true

theorem WellFormed.writable {m : Message} (hm : m.WellFormed) :
    m.edns.all Edns.writable = true := by
  cases he : m.edns with
  | none => rfl
  | some e => exact (hm.edns e he).writable

/-- A message is written whole when there is room for it. -/
theorem WellFormed.fitsWhole_iff {m : Message} (hm : m.WellFormed) : m.FitsWhole ↔ m.Fits := by
  constructor
  · rintro ⟨b, hb, hc⟩
    exact ⟨b, (body?_eq_some_iff.1 hb).1, hc⟩
  · rintro ⟨b, hwritten, hc⟩
    exact ⟨b, body?_eq_some_iff.2 ⟨hwritten, hm.writable⟩, hc⟩

theorem fits_of_size_le {m : Message} (h : m.size + 254 ≤ Place.limit) : m.Fits := by
  have hroom : (Section.after m.written
      (Section.afterQuestions m.questions (Place.start 12))).HasRoom := h
  obtain ⟨bs, hq⟩ := (Section.writes_questions m.questions).succeeds
    (hroom.of_le (Section.offset_le_after m.written _))
  have hc := Section.complete_of_room hroom
  simp only [written, Section.complete_append] at hc
  exact ⟨⟨bs, _, _, _, _⟩, ⟨_, _, _, _, _, hq, rfl, rfl, rfl, rfl⟩,
    by simpa [Body.complete, Body.sections] using hc⟩

theorem length_wire (m : Message) (b : Body) : (m.wire b).length = 12 + b.octets.length := by
  rw [wire, List.length_append, List.length_append]
  rfl

/-- The size of a message that there is room for is the length of what is written. -/
theorem size_eq_of_writtenAs {m : Message} {b : Body} (hb : m.WrittenAs b)
    (hc : b.complete = true) : m.size = (m.wire b).length ∧ m.size ≤ Place.limit := by
  obtain ⟨p₁, p₂, p₃, p₄, p₅, hq, h₁, h₂, h₃, h₄⟩ := hb
  simp only [Body.complete, Body.sections, List.all_cons, List.all_nil, Bool.and_true,
    Bool.and_eq_true] at hc
  obtain ⟨hc₁, hc₂, hc₃, hc₄⟩ := hc
  have hlim := Section.offset_le_limit_of_writeQuestions hq (by decide)
  obtain ⟨rfl, ho⟩ := (Section.writes_questions m.questions).ends hq
  obtain ⟨rfl, ho₁, hlim₁⟩ := Section.ends_of_write h₁ hc₁
  obtain ⟨rfl, ho₂, hlim₂⟩ := Section.ends_of_write h₂ hc₂
  obtain ⟨rfl, ho₃, hlim₃⟩ := Section.ends_of_write h₃ hc₃
  obtain ⟨rfl, ho₄, hlim₄⟩ := Section.ends_of_write h₄ hc₄
  have hsize : m.size = (Section.after (m.writtenEdns.toList.map Edns.record)
      (Section.after m.additionals (Section.after m.authorities (Section.after m.answers
        (Section.afterQuestions m.questions (Place.start 12)))))).offset := by
    rw [size, written, Section.after_append, Section.after_append, Section.after_append]
  rw [hsize]
  refine ⟨?_, hlim₄ (hlim₃ (hlim₂ (hlim₁ hlim)))⟩
  rw [length_wire, ho₄, ho₃, ho₂, ho₁, ho]
  simp only [Place.start, Body.octets, Body.sections, List.length_append, List.flatMap_cons,
    List.flatMap_nil, List.length_nil]
  omega

theorem size_le_of_fits {m : Message} (h : m.Fits) : m.size ≤ Place.limit := by
  obtain ⟨b, hb, hc⟩ := h
  exact (size_eq_of_writtenAs hb hc).2

theorem length_of_encode? {m : Message} {bs : Bytes} (hfit : m.FitsWhole)
    (h : m.encode? = some bs) : bs.length = m.size := by
  obtain ⟨b, hb, hc⟩ := hfit
  rw [encode?_eq_wire hb hc] at h
  cases h
  exact (size_eq_of_writtenAs (body?_eq_some_iff.1 hb).1 hc).1.symm

end Message

/-! ## A message without room

A pointer takes two octets, but there must be room for the name that it stands for.
-/

namespace Crowded

open Reader

def name : Name :=
  ⟨[List.replicate 63 97], by decide⟩

def filler (data : Bytes) : Record :=
  ⟨Name.root, 65280, 1, 0, .octets data⟩

/-- The name of the question stands a second time behind a long record. -/
def message (data : Bytes) : Message :=
  { Message.bare
      { (default : Header) with id := 0x1234, response := true, recursionAvailable := true } with
    questions := [⟨name, 1, 1⟩]
    answers := [filler data, ⟨name, 1, 1, 0, .empty⟩] }

/-- The request to which the message is a reply. -/
def request : Message :=
  { Message.bare { (default : Header) with id := 0x1234 } with questions := [⟨name, 1, 1⟩] }

def requestOctets : Bytes :=
  [18, 52, 0, 0, 0, 1, 0, 0, 0, 0, 0, 0, 63] ++ List.replicate 63 97 ++ [0, 0, 1, 0, 1]

def fillerOctets (data : Bytes) : Bytes :=
  [0, 255, 0, 0, 1, 0, 0, 0, 0, 255, 120] ++ data

def pointerOctets : Bytes :=
  [192, 12, 0, 1, 0, 1, 0, 0, 0, 0, 0, 0]

/-- All of the message, with a pointer behind the long record. -/
def body (data : Bytes) : Body where
  questions := 63 :: (List.replicate 63 97 ++ [0, 0, 1, 0, 1])
  answers := ⟨fillerOctets data ++ pointerOctets, 2, true⟩
  authorities := ⟨[], 0, true⟩
  additionals := ⟨[], 0, true⟩
  opt := ⟨[], 0, true⟩

/-- What is sent instead: the last record is left out. -/
def thinned (data : Bytes) : Message :=
  { message data with
    header.truncated := true
    answers := [filler data] }

theorem thinned_ne (data : Bytes) : thinned data ≠ message data := by
  intro h
  have htruncated : true = false := congrArg (·.header.truncated) h
  cases htruncated

/-- The place behind the question. -/
def place : Place :=
  ⟨81, [(name.labels, 12)]⟩

theorem size_message (data : Bytes) : (message data).size = data.length + 104 := by
  have h : (message data).size = 92 + data.length + 12 := rfl
  omega

theorem writeQuestions_message (data : Bytes) :
    Section.writeQuestions (message data).questions (Place.start 12) =
      some ((body data).questions, place) :=
  rfl

theorem length_message (data : Bytes) :
    ((message data).wire (body data)).length = data.length + 104 := by
  rw [Message.length_wire]
  simp only [body, Body.octets, Body.sections, fillerOctets, pointerOctets, List.flatMap_cons,
    List.flatMap_nil, List.length_append, List.length_cons, List.length_nil, List.length_replicate]
  omega

variable {data whole : Bytes} {p : Place}

theorem write_filler (h : data.length = 65400) :
    (filler data).write place = some (fillerOctets data, place.skip 65411) := by
  have hname : Name.root.write true place = some ([0], place.skip 1) := rfl
  simp only [filler, Record.write, hname, RecordData.write, Option.bind_eq_bind, Option.bind_some,
    Place.skip, h]
  rw [if_neg (by decide)]
  rfl

/-- The record that is left out: its name would end past the limit in full. -/
theorem write_last : (⟨name, 1, 1, 0, .empty⟩ : Record).write (place.skip 65411) = none :=
  rfl

theorem write_thinned (h : data.length = 65400) :
    Section.write (thinned data).answers place =
      (⟨fillerOctets data, 1, true⟩, place.skip 65411) := by
  simp only [thinned, Section.write, write_filler h, List.append_nil]

theorem encode?_message (h : data.length = 65400) :
    (thinned data).FitsWhole ∧ (message data).encode? = (thinned data).encode? := by
  have hcut : Section.write (message data).answers place =
      (⟨fillerOctets data, 1, false⟩, place.skip 65411) := by
    simp only [message, Section.write, write_filler h, write_last, List.append_nil]
  have hb : (message data).body? =
      some { body data with answers := ⟨fillerOctets data, 1, false⟩ } :=
    Message.body?_eq_some_iff.2
      ⟨⟨_, _, _, _, _, writeQuestions_message data, hcut, rfl, rfl, rfl⟩, rfl⟩
  have hb' : (thinned data).body? =
      some { body data with answers := ⟨fillerOctets data, 1, true⟩ } :=
    Message.body?_eq_some_iff.2
      ⟨⟨_, _, _, _, _, writeQuestions_message data, write_thinned h, rfl, rfl, rfl⟩, rfl⟩
  refine ⟨⟨_, hb', rfl⟩, ?_⟩
  rw [Message.encode?, Message.encode?, hb, hb']
  rfl

theorem wellFormed_filler (h : data.length = 65400) :
    (filler data).WellFormed ∧ (filler data).type ∉ Entry.additionalTypes := by
  have htype : (65280 : UInt16) ≠ RecordType.opt := by decide
  have hplain : (65280 : UInt16) ∉ Entry.additionalTypes := by decide
  refine ⟨⟨htype, rfl, ?_, rfl⟩, hplain⟩
  rintro rfl
  cases h

theorem wellFormed_message (h : data.length = 65400) : (message data).WellFormed := by
  refine ⟨?_, fun r hr => ?_, fun r hr => ?_, fun e he => ?_⟩
  · simp only [message, List.forall_mem_cons]
    exact ⟨wellFormed_filler h, by decide, by simp⟩
  · cases hr
  · cases hr
  · cases he

theorem holds_pointer (hs : p.Sound whole) (hruns : (name.labels, 12) ∈ p.runs)
    (hpos : p.offset < whole.length) (hlim : p.offset + 12 ≤ Place.limit) :
    (⟨pointerOctets, 1, true⟩ : Section).Holds whole [.record ⟨name, 1, 1, 0, .empty⟩] p
      (p.skip 12) where
  count := rfl
  count_le := by decide
  offset := rfl
  sound := hs.skip 12
  limit := fun _ => hlim
  read := fun rest => by
    have hname : (Reader.name whole).run ⟨p.offset, pointerOctets ++ rest⟩ =
        some (name, ⟨p.offset + 2, pointerOctets.drop 2 ++ rest⟩) :=
      Name.read_pointer (hs _ _ hruns).2 (by decide) hpos
    have hentry : (Entry.reader whole).run ⟨p.offset, pointerOctets ++ rest⟩ =
        some (.record ⟨name, 1, 1, 0, .empty⟩, ⟨p.offset + 12, rest⟩) := by
      rw [Entry.reader]
      exact (run_bind_of hname).trans rfl
    exact times_succ_run hentry rfl

theorem stands_message (h : data.length = 65400) (hd : whole.drop 12 = (body data).octets) :
    Message.Stands whole (message data) (body data) place (place.skip 65423) (place.skip 65423)
      (place.skip 65423) := by
  have hoct : (body data).octets =
      (body data).questions ++ (fillerOctets data ++ (pointerOctets ++ [])) := by
    simp [body, Body.octets, Body.sections]
  rw [hoct] at hd
  obtain ⟨-, ho, hs, -, hr⟩ :=
    Section.read_writeQuestions (writeQuestions_message data) (Place.sound_start whole 12) hd
  have hd₁ := drop_past hd ho
  -- The long record is read as it is written; the pointer behind it no encoder has written.
  have hfiller : ∀ e ∈ [Entry.record (filler data)], e.WellFormed := by
    intro e he
    rw [List.mem_singleton.1 he]
    exact (wellFormed_filler h).1
  have hF := Section.holds_of_write hfiller (write_thinned h) rfl hs hd₁
  have hd₂ := drop_past hd₁ hF.offset
  have hpos : (place.skip 65411).offset < whole.length := by
    have hlen := congrArg List.length hd₂
    rw [List.length_drop] at hlen
    exact Nat.lt_of_sub_pos (hlen ▸ Nat.succ_pos 11)
  have hP := holds_pointer hF.sound List.mem_cons_self hpos (by decide)
  have hnil : (⟨[], 0, true⟩ : Section).Holds whole [] (place.skip 65423) (place.skip 65423) :=
    ⟨rfl, Nat.le_refl _, rfl, hP.sound, fun hle => hle, fun rest => rfl⟩
  exact ⟨Nat.le_of_ble_eq_true rfl, hr, hF.append hP, hnil, hnil, by decide⟩

/-- The message is read from fewer octets than the limit, but what is sent of it is another one. -/
theorem decode?_message (h : data.length = 65400) :
    Message.decode? ((message data).wire (body data)) = some (message data) ∧
      ∃ sent, (message data).encode? = some sent ∧
        Message.decode? sent = some (thinned data) := by
  obtain ⟨hwhole, hsame⟩ := encode?_message h
  have hthinned : (thinned data).WellFormed :=
    ⟨fun r hr => List.mem_singleton.1 hr ▸ wellFormed_filler h, (wellFormed_message h).2,
      (wellFormed_message h).3, (wellFormed_message h).4⟩
  refine ⟨Message.decode?_wire (wellFormed_message h) (stands_message h rfl), ?_⟩
  rw [hsame]
  exact Message.decode?_encode? hthinned hwhole

end Crowded

end SplitDns
