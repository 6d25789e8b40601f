import SplitDns.Proofs.Room

/-!
# Room for questions

Records that do not fit are left out of a message; questions are not, so that a message whose
questions do not fit cannot be sent at all.  That is all that keeps a message from being sent which
was read (`Message.WellFormed.encode?_eq_none_iff`), and it takes more than 252 questions
(`Message.WellFormed.exists_encode?`).  Questions can take much less room where they were read than
where they are written: a name may be pointed to up to an offset at which the encoder no longer
notes it (`Distant.decode?_message`).
-/

namespace SplitDns

/-! ## The room that questions take -/

namespace Name

theorem length_writeLabels_le (abbreviate : Bool) (stop : Nat) (ls : List Label) (p : Place) :
    (writeLabels abbreviate stop ls p).1.length ≤ wireLength ls := by
  induction ls generalizing p with
  | nil => exact Nat.le_refl 1
  | cons l ls ih =>
    have hpos := wireLength_pos ls
    obtain ⟨offset, -, h⟩ | ⟨p', -, -, h⟩ := writeLabels_cons abbreviate stop l ls p
    · simp only [h, pointer, wireLength, List.length_cons, List.length_nil]
      omega
    · have hrest := ih p'
      simp only [h, labelOctets, wireLength, List.length_append, List.length_cons]
      omega

/-- Out of reach labels are written in full, and not noted. -/
theorem writeLabels_of_far {stop : Nat} (hfar : Place.reach ≤ stop) (ls : List Label) {p : Place}
    (hruns : p.runs = []) : (writeLabels true stop ls p).2 = p.skip (wireLength ls) := by
  induction ls generalizing p with
  | nil => rfl
  | cons l ls ih =>
    have hnone : p.offsetOf? (l :: ls) = none := by
      rw [Place.offsetOf?, hruns]
      rfl
    have hnote : p.note (l :: ls) stop = p := if_neg (Nat.not_lt.2 hfar)
    have hrest := ih (p := p.skip (l.length + 1)) hruns
    simp only [writeLabels, hnone, hnote, hrest]
    exact congrArg (Place.mk · p.runs) (Nat.add_assoc _ _ _)

theorem offset_after_le (abbreviate : Bool) (n : Name) (p : Place) :
    (n.after abbreviate p).offset ≤ p.offset + 255 := by
  rw [after, writeLabels_offset]
  exact Nat.add_le_add_left (Nat.le_trans (length_writeLabels_le ..) n.fits.2) _

end Name

namespace Section

theorem offset_afterQuestions_le (qs : List Question) (p : Place) :
    (afterQuestions qs p).offset ≤ p.offset + 259 * qs.length := by
  induction qs generalizing p with
  | nil => exact Nat.le_refl _
  | cons q qs ih =>
    have hname := q.name.offset_after_le true p
    have hrest := ih (q.after p)
    have hq : (q.after p).offset = (q.name.after true p).offset + 4 := rfl
    rw [List.length_cons]
    rw [afterQuestions, List.foldl_cons]
    rw [afterQuestions] at hrest
    omega

theorem afterQuestions_append (qs rs : List Question) (p : Place) :
    afterQuestions (qs ++ rs) p = afterQuestions rs (afterQuestions qs p) :=
  List.foldl_append

end Section

namespace Message

theorem encode?_eq_none_of_writeQuestions {m : Message}
    (h : Section.writeQuestions m.questions (Place.start 12) = none) : m.encode? = none := by
  rw [encode?, body?, h]
  rfl

/-- Questions that would end past the limit cannot be written. -/
theorem encode?_eq_none {m : Message}
    (h : Place.limit < (Section.afterQuestions m.questions (Place.start 12)).offset) :
    m.encode? = none := by
  refine encode?_eq_none_of_writeQuestions ?_
  refine Option.eq_none_iff_forall_ne_some.2 fun written hwritten => ?_
  have hlimit := Section.offset_le_limit_of_writeQuestions hwritten (by decide)
  obtain ⟨hend, -⟩ := (Section.writes_questions m.questions).ends hwritten
  rw [hend] at hlimit
  exact Nat.not_lt.2 hlimit h

/-- Of the messages that were read those cannot be sent whose questions cannot be written. -/
theorem WellFormed.encode?_eq_none_iff {m : Message} (hm : m.WellFormed) :
    m.encode? = none ↔ Section.writeQuestions m.questions (Place.start 12) = none := by
  refine ⟨fun hnone => ?_, encode?_eq_none_of_writeQuestions⟩
  cases hq : Section.writeQuestions m.questions (Place.start 12) with
  | none => rfl
  | some written =>
    have hb : m.body? = some ⟨written.1, _, _, _, _⟩ :=
      body?_eq_some_iff.2 ⟨⟨written.2, _, _, _, _, hq, rfl, rfl, rfl, rfl⟩, hm.writable⟩
    rw [encode?, hb] at hnone
    cases hnone

theorem WellFormed.exists_encode? {m : Message} (hm : m.WellFormed)
    (h : m.questions.length ≤ 252) : ∃ bs, m.encode? = some bs := by
  have hend := Section.offset_afterQuestions_le m.questions (Place.start 12)
  have hroom : (Section.afterQuestions m.questions (Place.start 12)).HasRoom := by
    have hstart : (Place.start 12).offset = 12 := rfl
    have hlimit : Place.limit = 65535 := rfl
    unfold Place.HasRoom
    omega
  obtain ⟨qs, hq⟩ := (Section.writes_questions m.questions).succeeds hroom
  rw [← Option.isSome_iff_exists, ← Option.ne_none_iff_isSome, ne_eq, hm.encode?_eq_none_iff, hq]
  nofun

end Message

/-! ## Questions without room

The last offset that a pointer can hold is pointed to by messages, but not by the encoder.
-/

namespace Reader

/-- Octets that are read as one value wherever they stand are read as that value over and over. -/
theorem times_replicate_run {α : Type} {one : Reader α} {a : α} {bs : Bytes} {size first last : Nat}
    (h : ∀ pos rest, first ≤ pos → pos + size ≤ last →
      one.run ⟨pos, bs ++ rest⟩ = some (a, ⟨pos + size, rest⟩)) (n : Nat) :
    ∀ pos, first ≤ pos → pos + size * n ≤ last → ∀ rest,
      (times one n).run ⟨pos, (List.replicate n bs).flatten ++ rest⟩ =
        some (List.replicate n a, ⟨pos + size * n, rest⟩) := by
  induction n with
  | zero => exact fun pos _ _ rest => rfl
  | succ n ih =>
    intro pos hfirst hlast rest
    rw [Nat.mul_succ] at hlast ⊢
    have hone := h pos ((List.replicate n bs).flatten ++ rest) hfirst (by omega)
    have hrest := ih (pos + size) (by omega) (by omega) rest
    rw [List.replicate_succ, List.flatten_cons, List.append_assoc, List.replicate_succ,
      Nat.add_comm (size * n), ← Nat.add_assoc]
    exact times_succ_run hone hrest

end Reader

theorem Question.run_reader {whole bs rest : Bytes} {n : Name} {pos pos' : Nat}
    (h : ∀ rest', (Reader.name whole).run ⟨pos, bs ++ rest'⟩ = some (n, ⟨pos', rest'⟩)) :
    (reader whole).run ⟨pos, bs ++ [0, 1, 0, 1] ++ rest⟩ = some (⟨n, 1, 1⟩, ⟨pos' + 4, rest⟩) := by
  rw [List.append_assoc, reader, Reader.run_bind_of (h _)]
  rfl

theorem Question.after_of_far {q : Question} {p : Place} (hruns : p.runs = [])
    (hfar : Place.reach ≤ p.offset + (Name.wireLength q.name.labels - 1)) :
    q.after p = p.skip (Name.wireLength q.name.labels + 4) := by
  rw [after, Name.after, Name.writeLabels_of_far hfar _ hruns]
  exact congrArg (Place.mk · p.runs) (Nat.add_assoc _ _ _)

/-- Questions that take the same room each. -/
theorem Section.afterQuestions_replicate {q : Question} {p : Place} {size : Nat}
    (h : ∀ p' : Place, p'.runs = p.runs → p.offset ≤ p'.offset → q.after p' = p'.skip size)
    (n : Nat) : afterQuestions (List.replicate n q) p = p.skip (size * n) := by
  induction n with
  | zero => rfl
  | succ n ih =>
    have hq := h (p.skip (size * n)) rfl (Nat.le_add_right _ _)
    rw [List.replicate_succ', afterQuestions_append, ih, Nat.mul_succ]
    exact hq.trans (congrArg (Place.mk · p.runs) (Nat.add_assoc _ _ _))

namespace Distant

open Reader

def root : Question :=
  ⟨Name.root, 1, 1⟩

def named : Question :=
  ⟨Crowded.name, 1, 1⟩

/-- A question for a name below the other one. -/
def below : Question :=
  ⟨⟨[List.replicate 5 98, List.replicate 63 97], by decide⟩, 1, 1⟩

/-- Questions for the root, one for a name, and behind it questions for the name above. -/
def message (n k : Nat) : Message :=
  { Message.bare { (default : Header) with id := 0x1234 } with
    questions := List.replicate n root ++ (below :: List.replicate k named) }

def rootOctets : Bytes :=
  [0] ++ [0, 1, 0, 1]

def namedOctets : Bytes :=
  Name.labelOctets (List.replicate 63 97) ++ [0]

def belowOctets : Bytes :=
  Name.labelOctets (List.replicate 5 98) ++ namedOctets ++ [0, 1, 0, 1]

/-- The offset of the name that is pointed to. -/
def target (n : Nat) : Nat :=
  12 + 5 * n + 6

def pointerOctets (n : Nat) : Bytes :=
  pointer (target n) ++ [0, 1, 0, 1]

/-- The name is written once and then pointed to. -/
def body (n k : Nat) : Body where
  questions := (List.replicate n rootOctets).flatten ++
    (belowOctets ++ (List.replicate k (pointerOctets n)).flatten)
  answers := ⟨[], 0, true⟩
  authorities := ⟨[], 0, true⟩
  additionals := ⟨[], 0, true⟩
  opt := ⟨[], 0, true⟩

variable {n k : Nat} {whole : Bytes}

theorem length_message (n k : Nat) :
    ((message n k).wire (body n k)).length = target n + 69 + 6 * k := by
  rw [Message.length_wire]
  simp [body, Body.octets, Body.sections, rootOctets, belowOctets, namedOctets, pointerOctets,
    pointer, Name.labelOctets, target]
  omega

theorem after_root (p : Place) : root.after p = p.skip 5 :=
  rfl

theorem encode?_message (hfar : Place.reach ≤ target n)
    (hlong : Place.limit < target n + 69 * (k + 1)) : (message n k).encode? = none := by
  refine Message.encode?_eq_none ?_
  have hroots : Section.afterQuestions (List.replicate n root) (Place.start 12) =
      (Place.start 12).skip (5 * n) :=
    Section.afterQuestions_replicate (fun p _ _ => after_root p) n
  have hbelow : below.after ((Place.start 12).skip (5 * n)) = Place.start (target n + 69) :=
    Question.after_of_far rfl (Nat.le_trans hfar (Nat.add_le_add_left (by decide) (12 + 5 * n)))
  have hnames : Section.afterQuestions (List.replicate k named) (Place.start (target n + 69)) =
      (Place.start (target n + 69)).skip (69 * k) :=
    Section.afterQuestions_replicate (fun p hruns hle => Question.after_of_far hruns
      (Nat.le_trans hfar (Nat.le_trans (Nat.le_add_right _ _) (Nat.le_add_right_of_le hle)))) k
  have hall : (Section.afterQuestions (message n k).questions (Place.start 12)).offset =
      target n + 69 + 69 * k := by
    rw [message, Section.afterQuestions_append, hroots]
    show (Section.afterQuestions _ (below.after _)).offset = _
    rw [hbelow, hnames]
    rfl
  rw [hall]
  omega

theorem name_root {pos : Nat} (h : pos < whole.length) (rest : Bytes) :
    (Reader.name whole).run ⟨pos, [0] ++ rest⟩ = some (Name.root, ⟨pos + 1, rest⟩) := by
  show (Reader.labels whole whole.length pos ⟨pos, 0 :: rest⟩).bind _ = _
  rw [labels_root h]
  rfl

theorem labels_named {ceiling start pos : Nat} (h : pos + 65 ≤ ceiling) (rest : Bytes) :
    Reader.labels whole ceiling start ⟨pos, namedOctets ++ rest⟩ =
      some (named.name.labels, ⟨pos + 65, rest⟩) := by
  rw [namedOctets, List.append_assoc, labels_label (by omega) (by decide) (by decide),
    List.length_replicate]
  show (Reader.labels whole ceiling start ⟨pos + 64, 0 :: rest⟩).map _ = _
  rw [labels_root (by omega)]
  rfl

theorem name_below {pos : Nat} (h : pos + 71 ≤ whole.length) (rest : Bytes) :
    (Reader.name whole).run
        ⟨pos, Name.labelOctets (List.replicate 5 98) ++ namedOctets ++ rest⟩ =
      some (below.name, ⟨pos + 71, rest⟩) := by
  show (Reader.labels whole whole.length pos _).bind _ = _
  rw [List.append_assoc, labels_label (by omega) (by decide) (by decide), List.length_replicate,
    labels_named (by omega)]
  rfl

/-- The questions are read from octets in which they stand. -/
theorem times_reader (hreach : target n < 16384) (hlength : whole.length = target n + 69 + 6 * k)
    (hd : whole.drop 12 = (body n k).octets) (rest : Bytes) :
    (times (Question.reader whole) (message n k).questions.length).run
      ⟨12, (body n k).questions ++ rest⟩ =
        some ((message n k).questions, ⟨target n + 69 + 6 * k, rest⟩) := by
  have hroot : ∀ pos rest', 12 ≤ pos → pos + 5 ≤ 12 + 5 * n →
      (Question.reader whole).run ⟨pos, rootOctets ++ rest'⟩ = some (root, ⟨pos + 5, rest'⟩) :=
    fun pos rest' _ hlast => Question.run_reader (name_root (by simp only [target] at *; omega))
  have hroots := times_replicate_run hroot n 12 (Nat.le_refl _) (Nat.le_refl _)
  have hname : ∀ rest', (Question.reader whole).run ⟨12 + 5 * n, belowOctets ++ rest'⟩ =
      some (below, ⟨target n + 69, rest'⟩) :=
    fun rest' => Question.run_reader (name_below (by simp only [target] at *; omega))
  have hstands : Resolves whole (target n + 65) (target n) named.name.labels := by
    have hlen : target n = 12 + ((List.replicate n rootOctets).flatten ++
        Name.labelOctets (List.replicate 5 98)).length := by
      simp [rootOctets, Name.labelOctets, target, Nat.mul_comm, Nat.add_assoc]
    obtain ⟨rest', hoctets⟩ : ∃ rest', (body n k).octets =
        (List.replicate n rootOctets).flatten ++ Name.labelOctets (List.replicate 5 98) ++
          (namedOctets ++ rest') :=
      ⟨_, by simp only [body, Body.octets, belowOctets, List.append_assoc]; rfl⟩
    rw [hoctets] at hd
    rw [Resolves, drop_past hd hlen]
    exact ⟨_, labels_named (Nat.le_refl _) _⟩
  have hpointer : ∀ pos rest', target n + 69 ≤ pos → pos + 6 ≤ whole.length →
      (Question.reader whole).run ⟨pos, pointerOctets n ++ rest'⟩ =
        some (named, ⟨pos + 6, rest'⟩) := fun pos rest' hfirst hlast =>
    Question.run_reader fun _ => Name.read_pointer (hstands.mono (by omega)) hreach (by omega)
  have hpointers := times_replicate_run hpointer k (target n + 69)
    (Nat.le_refl _) (Nat.le_of_eq hlength.symm)
  have hlen : (message n k).questions.length = n + (k + 1) := by
    simp [message]
  rw [hlen, body, List.append_assoc, List.append_assoc]
  exact times_add_run (times_succ_run (hname _) (hpointers _)) (hroots _)

theorem wellFormed_message (n k : Nat) : (message n k).WellFormed := by
  constructor <;> simp [message, Message.bare]

/-- The message is read from octets within the limit. -/
theorem decode?_message (hreach : target n < 16384) (hlimit : target n + 69 + 6 * k ≤ Place.limit) :
    Message.decode? ((message n k).wire (body n k)) = some (message n k) := by
  have hquestions := times_reader hreach (length_message n k) (Message.drop_wire ..)
  have hcount : (message n k).questions.length ≤ Place.limit := by
    simp only [message, List.length_append, List.length_cons, List.length_replicate]
    simp only [target] at hlimit
    omega
  let p : Place := Place.start (target n + 69 + 6 * k)
  have hempty : (⟨[], 0, true⟩ : Section).Holds ((message n k).wire (body n k)) [] p p :=
    ⟨rfl, Nat.le_refl _, rfl, Place.sound_start _ _, fun hle => hle, fun rest => rfl⟩
  have hstands : Message.Stands _ (message n k) (body n k) p p p p :=
    ⟨hcount, hquestions, hempty, hempty, hempty, hlimit⟩
  exact Message.decode?_wire (wellFormed_message n k) hstands

end Distant

end SplitDns
