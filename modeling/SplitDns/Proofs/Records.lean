import SplitDns.Proofs.Abbreviation

/-!
# Records on the wire

A record that fits into a message is read back from it, with its data and, for the OPT record, as
the EDNS section that it stands for (`Entry.read_write`).  `RecordData.HasForm` and
`Edns.WellFormed` say what data the readers can give; all that is read has it
(`Entry.wellFormed_of_reader`).
-/

namespace SplitDns

open Reader

/-! ## Addresses -/

namespace Ipv6

theorem groupsOf?_octets (gs : List UInt16) : groupsOf? (gs.flatMap groupOctets) = some gs := by
  induction gs with
  | nil => rfl
  | cons g gs ih =>
    have hg : joinOctets (g >>> 8).toUInt8 g.toUInt8 = g := Word.ofOctets16_octets g
    simp only [List.flatMap_cons, groupOctets, List.cons_append, List.nil_append, groupsOf?, hg]
    rw [ih]
    rfl

theorem ofOctets?_octets (ip : Ipv6) : ofOctets? ip.octets = some ip := by
  rw [ofOctets?, octets, groupsOf?_octets]
  exact dif_pos ip.length_groups

theorem length_octets (ip : Ipv6) : ip.octets.length = 16 := by
  have h : ∀ gs : List UInt16, (gs.flatMap groupOctets).length = 2 * gs.length := by
    intro gs
    induction gs with
    | nil => rfl
    | cons g gs ih =>
      rw [List.flatMap_cons, List.length_append, ih, List.length_cons, groupOctets]
      simp only [List.length_cons, List.length_nil]
      omega
  rw [octets, h, ip.length_groups]

end Ipv6

/-! ## Record data -/

namespace RecordData

/-- Whether data is of the form that records of a type have on the wire. -/
def HasForm (type : UInt16) : RecordData → Prop
  | empty => True
  | ipv4 _ => Form.ofType type = .ipv4
  | ipv6 _ => Form.ofType type = .ipv6
  | name _ => Form.ofType type = .name
  | mail _ _ => Form.ofType type = .mail
  | service _ _ _ _ => Form.ofType type = .service
  | authority _ _ _ _ _ _ _ => Form.ofType type = .authority
  | octets bs => Form.ofType type = .octets ∧ bs ≠ [] ∧ isFormed type bs = true

instance (type : UInt16) (d : RecordData) : Decidable (d.HasForm type) := by
  cases d <;> unfold HasForm <;> infer_instance

theorem take_all_run {n : Nat} (p : Nat) {h : Bytes} (hn : h.length = n) :
    (take n).run ⟨p, h⟩ = some (h, ⟨p + n, []⟩) := by
  have ht := take_run p h [] hn
  rwa [List.append_nil] at ht

/-- Data that is written at a sound place of a message is read back as a value of its type. -/
theorem read_write {whole rest bs : Bytes} {type : UInt16} {d : RecordData} {p q : Place}
    (hf : d.HasForm type) (hne : d ≠ .empty) (hw : d.write p = some (bs, q))
    (hp : p.Sound whole) (hd : whole.drop p.offset = bs ++ rest) :
    bs ≠ [] ∧ q.offset = p.offset + bs.length ∧ q.Sound whole ∧
      (reader whole type).run ⟨p.offset, bs⟩ = some (d, ⟨q.offset, []⟩) := by
  unfold reader
  cases d with
  | empty => exact absurd rfl hne
  | ipv4 ip =>
    cases hw
    rw [show Form.ofType type = .ipv4 from hf]
    refine ⟨List.cons_ne_nil _ _, rfl, hp.skip _, ?_⟩
    exact run_bind_of (take_all_run p.offset (rfl : ip.octets.length = 4))
  | ipv6 ip =>
    cases hw
    rw [show Form.ofType type = .ipv6 from hf]
    refine ⟨fun h => ?_, by rw [ip.length_octets]; rfl, hp.skip _, ?_⟩
    · have hl := ip.length_octets
      rw [h] at hl
      cases hl
    simp only
    rw [run_bind_of (take_all_run p.offset ip.length_octets), ip.ofOctets?_octets]
    rfl
  | name n =>
    rw [show Form.ofType type = .name from hf]
    obtain ⟨hne, ho, hs, hr⟩ := Name.read_write hw hp hd
    refine ⟨hne, ho, hs, ?_⟩
    have hr := hr []
    rw [List.append_nil] at hr
    exact run_bind_of hr
  | mail preference n =>
    rw [show Form.ofType type = .mail from hf]
    obtain ⟨⟨cs, q'⟩, hn, he⟩ := Option.bind_eq_some_iff.1 hw
    cases he
    obtain ⟨-, ho, hs, hr⟩ := Name.read_write hn (hp.skip 2)
      (drop_past (by rw [hd, List.append_assoc]) rfl)
    have hr := hr []
    rw [List.append_nil] at hr
    refine ⟨List.cons_ne_nil _ _, ?_, hs, ?_⟩
    · rw [ho, List.length_append, Word.length_octets16]
      exact Nat.add_assoc _ _ _
    · simp only
      rw [run_bind_of (word16_run p.offset preference cs)]
      exact run_bind_of hr
  | service priority weight port n =>
    rw [show Form.ofType type = .service from hf]
    obtain ⟨⟨cs, q'⟩, hn, he⟩ := Option.bind_eq_some_iff.1 hw
    cases he
    obtain ⟨-, ho, hs, hr⟩ := Name.read_write hn (hp.skip 6)
      (drop_past (by rw [hd, List.append_assoc]) rfl)
    have hr := hr []
    rw [List.append_nil] at hr
    refine ⟨List.cons_ne_nil _ _, ?_, hs, ?_⟩
    · rw [ho, List.length_append]
      exact Nat.add_assoc _ _ _
    · simp only [List.append_assoc]
      rw [run_bind_of (word16_run p.offset priority _), run_bind_of (word16_run _ weight _),
        run_bind_of (word16_run _ port cs)]
      exact run_bind_of hr
  | authority primary mailbox serial refresh retry expire minimum =>
    rw [show Form.ofType type = .authority from hf]
    obtain ⟨⟨cs, q₁⟩, hn₁, he⟩ := Option.bind_eq_some_iff.1 hw
    obtain ⟨⟨ds, q₂⟩, hn₂, he⟩ := Option.bind_eq_some_iff.1 he
    cases he
    rw [List.append_assoc, List.append_assoc] at hd
    obtain ⟨hne₁, ho₁, hs₁, hr₁⟩ := Name.read_write hn₁ hp hd
    have hd₂ := drop_past hd ho₁
    obtain ⟨-, ho₂, hs₂, hr₂⟩ := Name.read_write hn₂ hs₁ hd₂
    refine ⟨by simp [hne₁], ?_, hs₂.skip _, ?_⟩
    · rw [List.length_append, List.length_append, ← Nat.add_assoc, ← Nat.add_assoc, ← ho₁, ← ho₂]
      rfl
    · simp only [List.append_assoc, List.flatMap_cons, List.flatMap_nil]
      rw [run_bind_of (hr₁ _), run_bind_of (hr₂ _), run_bind_of (word32_run _ serial _),
        run_bind_of (word32_run _ refresh _), run_bind_of (word32_run _ retry _),
        run_bind_of (word32_run _ expire _), run_bind_of (word32_run _ minimum [])]
      rfl
  | octets bs =>
    cases hw
    rw [show Form.ofType type = .octets from hf.1]
    refine ⟨hf.2.1, rfl, hp.skip _, ?_⟩
    have hr : remaining.run ⟨p.offset, bs⟩ = some (bs, ⟨p.offset + bs.length, []⟩) := rfl
    simp only
    rw [run_bind_of hr, if_pos hf.2.2]
    rfl

end RecordData

/-! ## EDNS options -/

namespace Edns

/-- Whether an EDNS section is as it is read: options with a form of their own are in it. -/
def WellFormed (e : Edns) : Prop :=
  512 ≤ e.payload ∧ ∀ o ∈ e.options, option? o.1 o.2 = some o

instance (e : Edns) : Decidable e.WellFormed := by
  unfold WellFormed
  infer_instance

theorem address?_eq_some {width : Nat} {bits : UInt8} {bs a : Bytes}
    (h : address? width bits bs = some a) :
    a.length = prefixOctets bits ∧ address? width bits a = some a := by
  simp only [address?, Option.ite_none_left_eq_some, Option.map_eq_some_iff] at h
  obtain ⟨hwidth, ⟨a', t⟩, hc, rfl⟩ := h
  have hlength := (eq_append_of_cutOctets? hc).2
  have ha := cutOctets?_append a' []
  rw [List.append_nil, hlength] at ha
  exact ⟨hlength, by rw [address?, if_neg hwidth, ha]; rfl⟩

/-- A subnet that was read holds all octets of its prefix, and is read as it is. -/
theorem subnet?_eq_some {bs cs : Bytes} (h : subnet? bs = some cs) : subnet? cs = some cs ∧
    ∃ family kind bits scope a, cs = family :: kind :: bits :: scope :: a ∧
      a.length = prefixOctets bits := by
  unfold subnet? at h
  split at h
  · obtain ⟨a, ha, rfl⟩ := Option.map_eq_some_iff.1 h
    obtain ⟨hlength, hagain⟩ := address?_eq_some ha
    exact ⟨by simp [subnet?, hagain], _, _, _, _, _, rfl, hlength⟩
  · obtain ⟨a, ha, rfl⟩ := Option.map_eq_some_iff.1 h
    obtain ⟨hlength, hagain⟩ := address?_eq_some ha
    exact ⟨by simp [subnet?, hagain], _, _, _, _, _, rfl, hlength⟩
  · cases h

theorem option?_idem {code : UInt16} {bs : Bytes} {o : UInt16 × Bytes}
    (h : option? code bs = some o) : option? o.1 o.2 = some o := by
  unfold option? at h
  split at h
  · next hcode =>
    obtain ⟨cs, hc, rfl⟩ := Option.map_eq_some_iff.1 h
    simp [option?, hcode, (subnet?_eq_some hc).1]
  · next hcode =>
    cases h
    simp [option?, hcode]

theorem option?_of_optionsFrom? {total : Nat} {found os : List (UInt16 × Bytes)} {bs : Bytes}
    (h : optionsFrom? total found bs = some os)
    (hf : ∀ o ∈ found, option? o.1 o.2 = some o) : ∀ o ∈ os, option? o.1 o.2 = some o := by
  fun_induction optionsFrom? total found bs with
  | case1 found =>
    cases h
    exact hf
  | case2 =>
    cases h
    simp
  | case3 => cases h
  | case4 =>
    cases h
    simp
  | case5 => cases h
  | case6 found a b c d r size hsize value t hc o ho ih =>
    refine ih h fun x hx => ?_
    rcases List.mem_append.1 hx with hx | hx
    · exact hf x hx
    · rw [List.mem_singleton.1 hx]
      exact option?_idem ho
  | case7 => cases h

/-- Options that were read can be written again. -/
theorem WellFormed.writable {e : Edns} (h : e.WellFormed) : e.writable = true := by
  refine List.all_eq_true.2 fun o ho => ?_
  obtain ⟨code, bs⟩ := o
  have hread := h.2 _ ho
  by_cases hcode : code = 8
  · simp only [option?, hcode, if_true, Option.map_eq_some_iff] at hread
    obtain ⟨cs, hc, heq⟩ := hread
    cases heq
    obtain ⟨-, family, kind, bits, scope, a, rfl, hlength⟩ := subnet?_eq_some hc
    simp [hcode, hlength]
  · simp [hcode]

theorem optionsFrom?_cons {total : Nat} {found : List (UInt16 × Bytes)} {o : UInt16 × Bytes}
    {r : Bytes} (ho : option? o.1 o.2 = some o) (hlen : o.2.length ≤ total)
    (hmax : o.2.length ≤ 65535) :
    optionsFrom? total found (optionOctets o ++ r) = optionsFrom? total (found ++ [o]) r := by
  have hsize : (Word.ofOctets16 (UInt16.ofNat o.2.length >>> 8).toUInt8
      (UInt16.ofNat o.2.length).toUInt8).toNat = o.2.length := by
    rw [Word.ofOctets16_octets, Word.toNat_ofNat16 hmax]
  simp only [optionOctets, Word.octets16, List.cons_append, List.nil_append]
  rw [optionsFrom?, if_neg (by rw [hsize]; exact Nat.not_lt.2 hlen)]
  split
  · next hc =>
    rw [hsize, cutOctets?_append] at hc
    cases hc
  · next hc =>
    rw [hsize, cutOctets?_append] at hc
    cases hc
    rw [Word.ofOctets16_octets, ho]

theorem options?_octets {os : List (UInt16 × Bytes)} (hos : ∀ o ∈ os, option? o.1 o.2 = some o)
    (hmax : (os.flatMap optionOctets).length ≤ 65535) :
    options? (os.flatMap optionOctets) = some os := by
  have h : ∀ (total : Nat) (found os : List (UInt16 × Bytes)),
      (∀ o ∈ os, option? o.1 o.2 = some o) → (os.flatMap optionOctets).length ≤ total →
      total ≤ 65535 →
      optionsFrom? total found (os.flatMap optionOctets) = some (found ++ os) := by
    intro total found os hos htotal hmax
    induction os generalizing found with
    | nil => simp [optionsFrom?]
    | cons o os ih =>
      rw [List.flatMap_cons, List.length_append] at htotal
      have ho : o.2.length ≤ (optionOctets o).length := by
        simp only [optionOctets, List.length_append]
        omega
      rw [List.flatMap_cons,
        optionsFrom?_cons (hos o (by simp)) (by omega) (by omega),
        ih _ (fun x hx => hos x (by simp [hx])) (by omega), List.append_assoc]
      rfl
  exact h _ [] os hos (Nat.le_refl _) hmax

/-! ### The OPT record -/

theorem high_ttl (e : Edns) : (e.ttl >>> 24).toUInt8 = e.rcodeHigh := by
  apply UInt8.eq_of_toBitVec_eq
  simp only [ttl, UInt32.toBitVec_or, UInt32.toBitVec_shiftLeft, UInt8.toBitVec_toUInt32,
    UInt32.toBitVec_toUInt8, UInt32.toBitVec_shiftRight, UInt16.toBitVec_toUInt32]
  apply BitVec.eq_of_getLsbD_eq
  intro i hi
  simp
  grind

theorem middle_ttl (e : Edns) : (e.ttl >>> 16).toUInt8 = e.version := by
  apply UInt8.eq_of_toBitVec_eq
  simp only [ttl, UInt32.toBitVec_or, UInt32.toBitVec_shiftLeft, UInt8.toBitVec_toUInt32,
    UInt32.toBitVec_toUInt8, UInt32.toBitVec_shiftRight, UInt16.toBitVec_toUInt32]
  apply BitVec.eq_of_getLsbD_eq
  intro i hi
  simp
  grind

theorem low_ttl (e : Edns) : e.ttl.toUInt16 = e.flags := by
  apply UInt16.eq_of_toBitVec_eq
  simp only [ttl, UInt32.toBitVec_or, UInt32.toBitVec_shiftLeft, UInt8.toBitVec_toUInt32,
    UInt32.toBitVec_toUInt16, UInt16.toBitVec_toUInt32]
  apply BitVec.eq_of_getLsbD_eq
  intro i hi
  simp

theorem ednsReader_octets {e : Edns} (he : e.WellFormed)
    (hmax : (e.options.flatMap optionOctets).length ≤ 65535) :
    Entry.ednsReader Name.root e.payload e.ttl (e.options.flatMap optionOctets) = some e := by
  have hp : max 512 e.payload = e.payload := by
    have := he.1
    show (if (512 : UInt16) ≤ e.payload then e.payload else 512) = e.payload
    rw [if_pos this]
  rw [Entry.ednsReader, options?_octets he.2 hmax, high_ttl, middle_ttl, low_ttl, hp]
  rfl

end Edns

/-! ## Records and entries -/

theorem Record.write_eq_some {r : Record} {p q : Place} {bs : Bytes}
    (h : r.write p = some (bs, q)) :
    ∃ name q₁ data, r.name.write true p = some (name, q₁) ∧
      r.data.write (q₁.skip 10) = some (data, q) ∧ q.offset ≤ Place.limit ∧
      bs = name ++ (Word.octets16 r.type ++ (Word.octets16 r.dnsClass ++ (Word.octets32 r.ttl ++
        (Word.octets16 (UInt16.ofNat data.length) ++ data)))) := by
  obtain ⟨⟨name, q₁⟩, hn, h⟩ := Option.bind_eq_some_iff.1 h
  obtain ⟨⟨data, q₂⟩, hd, h⟩ := Option.bind_eq_some_iff.1 h
  simp only [Option.ite_none_left_eq_some, Nat.not_lt] at h
  obtain ⟨hlim, h⟩ := h
  cases h
  exact ⟨name, q₁, data, hn, hd, hlim, by simp only [List.append_assoc]⟩

/-- A record of a type whose data is read, other than the OPT record. -/
def Record.WellFormed (r : Record) : Prop :=
  r.type ≠ RecordType.opt ∧ r.data.HasForm r.type

instance (r : Record) : Decidable r.WellFormed := by
  unfold Record.WellFormed
  infer_instance

namespace Entry

/-- The record that stands for an entry on the wire. -/
def toRecord : Entry → Record
  | record r => r
  | edns e => e.record

def WellFormed : Entry → Prop
  | record r => r.WellFormed
  | edns e => e.WellFormed

/-- The data of a record that is written at a sound place is read back with the record. -/
theorem read_recordData {whole rest data : Bytes} {r : Record} {p q : Place} (hr : r.WellFormed)
    (hw : r.data.write p = some (data, q)) (hlim : q.offset ≤ Place.limit) (hp : p.Sound whole)
    (hd : whole.drop p.offset = data ++ rest) :
    q.offset = p.offset + data.length ∧ q.Sound whole ∧ ∀ rest',
      (bodyReader whole r.name r.type r.dnsClass r.ttl (UInt16.ofNat data.length)).run
        ⟨p.offset, data ++ rest'⟩ = some (record r, ⟨q.offset, rest'⟩) := by
  obtain ⟨htype, hform⟩ := hr
  by_cases hempty : r.data = .empty
  · rw [hempty] at hw
    cases hw
    refine ⟨rfl, hp, fun rest' => ?_⟩
    have hzero : UInt16.ofNat ([] : Bytes).length = 0 := rfl
    rw [bodyReader, if_neg htype, ← hempty, if_pos hzero]
    rfl
  · obtain ⟨hne, ho, hs, hr⟩ := RecordData.read_write hform hempty hw hp hd
    have hpos := List.length_pos_iff.2 hne
    have hsize : (UInt16.ofNat data.length).toNat = data.length :=
      Word.toNat_ofNat16 (Nat.le_trans (by omega) hlim)
    have hzero : UInt16.ofNat data.length ≠ 0 := by
      intro h0
      rw [h0] at hsize
      exact absurd hsize.symm (Nat.ne_of_gt hpos)
    refine ⟨ho, hs, fun rest' => ?_⟩
    rw [bodyReader, if_neg htype, if_neg hzero, run_bind_of (within_run hr hsize.symm rest'),
      hsize, ← ho]
    rfl

/-- The data of an OPT record that is written is read back with its EDNS section. -/
theorem read_ednsData {whole data : Bytes} {e : Edns} {p q : Place} (he : e.WellFormed)
    (hw : e.record.data.write p = some (data, q)) (hlim : q.offset ≤ Place.limit)
    (hp : p.Sound whole) :
    q.offset = p.offset + data.length ∧ q.Sound whole ∧ ∀ rest',
      (bodyReader whole Name.root RecordType.opt e.payload e.ttl (UInt16.ofNat data.length)).run
        ⟨p.offset, data ++ rest'⟩ = some (edns e, ⟨q.offset, rest'⟩) := by
  have hdata : data = e.options.flatMap Edns.optionOctets ∧ q = p.skip data.length := by
    cases ho : e.options with
    | nil =>
      simp only [Edns.record, ho, List.isEmpty_nil, if_true] at hw
      cases hw
      exact ⟨rfl, rfl⟩
    | cons o os =>
      simp only [Edns.record, ho, List.isEmpty_cons] at hw
      cases hw
      exact ⟨rfl, rfl⟩
  obtain ⟨rfl, rfl⟩ := hdata
  have hmax : (e.options.flatMap Edns.optionOctets).length ≤ 65535 :=
    Nat.le_trans (Nat.le_add_left _ _) hlim
  refine ⟨rfl, hp.skip _, fun rest' => ?_⟩
  rw [bodyReader, if_pos rfl, run_bind_of (take_run _ _ _ (Word.toNat_ofNat16 hmax).symm),
    Edns.ednsReader_octets he hmax, Word.toNat_ofNat16 hmax]
  rfl

/-- An entry that is written at a sound place of a message is read back there. -/
theorem read_write {whole rest bs : Bytes} {e : Entry} {p q : Place} (he : e.WellFormed)
    (hw : e.toRecord.write p = some (bs, q)) (hp : p.Sound whole)
    (hd : whole.drop p.offset = bs ++ rest) :
    bs ≠ [] ∧ q.offset = p.offset + bs.length ∧ q.Sound whole ∧
      ∀ rest', (reader whole).run ⟨p.offset, bs ++ rest'⟩ = some (e, ⟨q.offset, rest'⟩) := by
  obtain ⟨name, q₁, data, hn, hdata, hlim, rfl⟩ := Record.write_eq_some hw
  rw [List.append_assoc] at hd
  obtain ⟨hne₁, ho₁, hs₁, hr₁⟩ := Name.read_write hn hp hd
  have hd₁ : whole.drop (q₁.skip 10).offset = data ++ rest := by
    rw [show (q₁.skip 10).offset = p.offset + name.length + 10 from congrArg (· + 10) ho₁,
      ← List.drop_drop, ← List.drop_drop, hd, List.drop_left]
    rfl
  obtain ⟨ho, hs, hr⟩ : q.offset = (q₁.skip 10).offset + data.length ∧ q.Sound whole ∧ ∀ rest',
      (bodyReader whole e.toRecord.name e.toRecord.type e.toRecord.dnsClass e.toRecord.ttl
        (UInt16.ofNat data.length)).run ⟨(q₁.skip 10).offset, data ++ rest'⟩ =
        some (e, ⟨q.offset, rest'⟩) := by
    cases e with
    | record r => exact read_recordData he hdata hlim (hs₁.skip 10) hd₁
    | edns e => exact read_ednsData he hdata hlim (hs₁.skip 10)
  refine ⟨by simp [hne₁], ?_, hs, fun rest' => ?_⟩
  · rw [ho, show (q₁.skip 10).offset = p.offset + name.length + 10 from congrArg (· + 10) ho₁]
    simp only [List.length_append, Word.length_octets16, Word.length_octets32]
    omega
  · simp only [List.append_assoc]
    rw [reader, run_bind_of (hr₁ _), run_bind_of (word16_run _ _ _),
      run_bind_of (word16_run _ _ _), run_bind_of (word32_run _ _ _),
      run_bind_of (word16_run _ _ _)]
    exact hr rest'

end Entry

/-! ## What the readers give -/

theorem RecordData.hasForm_of_reader {whole : Bytes} {type : UInt16} {d : RecordData}
    {c c' : Cursor} (hne : c.rest ≠ []) (h : (reader whole type).run c = some (d, c')) :
    d.HasForm type := by
  unfold reader at h
  cases hf : Form.ofType type <;> simp only [hf] at h <;> rw [run_bind_eq_some] at h <;>
    obtain ⟨x, c₁, hx, h⟩ := h
  case ipv4 =>
    cases ho : Ipv4.ofOctets? x with
    | none => rw [ho] at h; cases h
    | some ip => rw [ho] at h; cases h; exact hf
  case ipv6 =>
    cases ho : Ipv6.ofOctets? x with
    | none => rw [ho] at h; cases h
    | some ip => rw [ho] at h; cases h; exact hf
  case name => cases h; exact hf
  case mail =>
    obtain ⟨n, c₂, -, h⟩ := run_bind_eq_some.1 h
    cases h
    exact hf
  case service =>
    obtain ⟨weight, c₂, -, h⟩ := run_bind_eq_some.1 h
    obtain ⟨port, c₃, -, h⟩ := run_bind_eq_some.1 h
    obtain ⟨n, c₄, -, h⟩ := run_bind_eq_some.1 h
    cases h
    exact hf
  case authority =>
    obtain ⟨mailbox, c₂, -, h⟩ := run_bind_eq_some.1 h
    obtain ⟨serial, c₃, -, h⟩ := run_bind_eq_some.1 h
    obtain ⟨refresh, c₄, -, h⟩ := run_bind_eq_some.1 h
    obtain ⟨retry, c₅, -, h⟩ := run_bind_eq_some.1 h
    obtain ⟨expire, c₆, -, h⟩ := run_bind_eq_some.1 h
    obtain ⟨minimum, c₇, -, h⟩ := run_bind_eq_some.1 h
    cases h
    exact hf
  case octets =>
    cases hx
    split at h
    · next hformed =>
      cases h
      exact ⟨hf, hne, hformed⟩
    · cases h

theorem Edns.wellFormed_of_reader {n : Name} {payload : UInt16} {ttl : UInt32} {data : Bytes}
    {e : Edns} (h : Entry.ednsReader n payload ttl data = some e) : e.WellFormed := by
  obtain ⟨os, hos, h⟩ := Option.bind_eq_some_iff.1 h
  split at h
  · cases h
    refine ⟨?_, Edns.option?_of_optionsFrom? hos (by simp)⟩
    show (512 : UInt16) ≤ if (512 : UInt16) ≤ payload then payload else 512
    split
    · assumption
    · exact UInt16.le_refl _
  · cases h

namespace Entry

theorem wellFormed_of_reader {whole : Bytes} {e : Entry} {c c' : Cursor}
    (h : (reader whole).run c = some (e, c')) : e.WellFormed := by
  unfold reader at h
  obtain ⟨n, c₁, -, h⟩ := run_bind_eq_some.1 h
  obtain ⟨type, c₂, -, h⟩ := run_bind_eq_some.1 h
  obtain ⟨dnsClass, c₃, -, h⟩ := run_bind_eq_some.1 h
  obtain ⟨ttl, c₄, -, h⟩ := run_bind_eq_some.1 h
  obtain ⟨size, c₅, -, h⟩ := run_bind_eq_some.1 h
  unfold bodyReader at h
  split at h
  · obtain ⟨data, c₆, -, h⟩ := run_bind_eq_some.1 h
    cases he : ednsReader n dnsClass ttl data with
    | none => rw [he] at h; cases h
    | some e =>
      rw [he] at h
      cases h
      exact Edns.wellFormed_of_reader he
  next htype =>
    split at h
    · cases h
      exact ⟨htype, trivial⟩
    next hsize =>
      obtain ⟨d, c₆, hd, h⟩ := run_bind_eq_some.1 h
      cases h
      obtain ⟨part, c₇, hpart, hd⟩ := within_eq_some hd
      refine ⟨htype, RecordData.hasForm_of_reader (fun h0 => hsize ?_) hd⟩
      simp only at h0
      rw [h0] at hpart
      exact UInt16.toNat_inj.1 hpart.symm

end Entry

/-! ## Sections -/

namespace Section

theorem write_cons_complete {r : Record} {rs : List Record} {p q : Place} {s : Section}
    (hw : write (r :: rs) p = (s, q)) (hs : s.complete = true) :
    ∃ bs p' s', r.write p = some (bs, p') ∧ write rs p' = (s', q) ∧ s'.complete = true ∧
      s.octets = bs ++ s'.octets ∧ s.count = s'.count + 1 := by
  unfold write at hw
  split at hw
  · cases hw
    cases hs
  · next bs p' hr =>
    cases hw
    exact ⟨bs, p', _, hr, rfl, hs, rfl, rfl⟩

/-- A section from `p` to `q` holds the given entries: it counts them, ends within the limit, and
is read back as them, whatever follows. -/
structure Holds (s : Section) (whole : Bytes) (es : List Entry) (p q : Place) : Prop where
  count : s.count = es.length
  count_le : s.count ≤ s.octets.length
  offset : q.offset = p.offset + s.octets.length
  sound : q.Sound whole
  limit : p.offset ≤ Place.limit → q.offset ≤ Place.limit
  read : ∀ rest, (times (Entry.reader whole) es.length).run ⟨p.offset, s.octets ++ rest⟩ =
    some (es, ⟨q.offset, rest⟩)

/-- A section that is written to its end at a sound place of a message holds its entries. -/
theorem holds_of_write {whole : Bytes} : ∀ {es : List Entry} {p q : Place} {s : Section}
    {rest : Bytes}, (∀ e ∈ es, e.WellFormed) → write (es.map Entry.toRecord) p = (s, q) →
      s.complete = true → p.Sound whole → whole.drop p.offset = s.octets ++ rest →
      s.Holds whole es p q
  | [], p, q, s, rest, _, hw, _, hp, _ => by
      cases hw
      exact ⟨rfl, Nat.le_refl _, rfl, hp, id, fun rest => rfl⟩
  | e :: es, p, q, s, rest, hes, hw, hc, hp, hd => by
      obtain ⟨bs, p', s', hr, hw', hc', hoct, hcount⟩ := write_cons_complete hw hc
      rw [hoct, List.append_assoc] at hd
      obtain ⟨hne, ho, hs, hread⟩ := Entry.read_write (hes e (by simp)) hr hp hd
      have h := holds_of_write (fun x hx => hes x (by simp [hx])) hw' hc' hs (drop_past hd ho)
      obtain ⟨-, -, -, -, -, hlim, -⟩ := Record.write_eq_some hr
      have hpos := List.length_pos_iff.2 hne
      have hle := h.count_le
      have hoff := h.offset
      refine ⟨?_, ?_, ?_, h.sound, fun _ => h.limit hlim, fun rest' => ?_⟩
      · rw [hcount, h.count, List.length_cons]
      · rw [hcount, hoct, List.length_append]
        omega
      · rw [hoff, ho, hoct, List.length_append, Nat.add_assoc]
      · rw [hoct, List.append_assoc]
        exact times_succ_run (hread _) (h.read rest')

/-- Two sections as one. -/
def append (s t : Section) : Section where
  octets := s.octets ++ t.octets
  count := s.count + t.count
  complete := s.complete && t.complete

theorem Holds.append {s t : Section} {whole : Bytes} {es fs : List Entry} {p q r : Place}
    (hs : s.Holds whole es p q) (ht : t.Holds whole fs q r) :
    (s.append t).Holds whole (es ++ fs) p r where
  count := by rw [List.length_append, ← hs.count, ← ht.count, Section.append]
  count_le := by
    rw [Section.append, List.length_append]
    exact Nat.add_le_add hs.count_le ht.count_le
  offset := by rw [ht.offset, hs.offset, Section.append, List.length_append, Nat.add_assoc]
  sound := ht.sound
  limit := fun h => ht.limit (hs.limit h)
  read := fun rest => by
    rw [Section.append, List.length_append, List.append_assoc]
    exact times_add_run (ht.read rest) (hs.read _)

end Section

end SplitDns
