import SplitDns.Message.Encode

/-!
# Reading what was written

Each primitive reader takes back what the matching writer puts in front of the rest of the input:
words (`word16_run`, `word32_run`), the two octets of header flags (`ofFlags_octets`), runs of
octets (`take_run`) and delimited values (`within_run`).  Readers are opened one step at a time, by
`run_bind_of` when the first step is known to succeed and by `run_bind_eq_some` when the whole is.
-/

namespace SplitDns

/-! ## Words -/

namespace Word

theorem ofOctets16_octets (w : UInt16) : ofOctets16 (w >>> 8).toUInt8 w.toUInt8 = w := by
  apply UInt16.eq_of_toBitVec_eq
  simp only [ofOctets16, UInt16.toBitVec_or, UInt16.toBitVec_shiftLeft, UInt8.toBitVec_toUInt16,
    UInt16.toBitVec_toUInt8, UInt16.toBitVec_shiftRight]
  apply BitVec.eq_of_getLsbD_eq
  intro i hi
  simp
  by_cases h : i < 8 <;> grind

theorem ofOctets32_octets (w : UInt32) :
    ofOctets32 (w >>> 24).toUInt8 (w >>> 16).toUInt8 (w >>> 8).toUInt8 w.toUInt8 = w := by
  apply UInt32.eq_of_toBitVec_eq
  simp only [ofOctets32, UInt32.toBitVec_or, UInt32.toBitVec_shiftLeft, UInt8.toBitVec_toUInt32,
    UInt32.toBitVec_toUInt8, UInt32.toBitVec_shiftRight]
  apply BitVec.eq_of_getLsbD_eq
  intro i hi
  simp
  -- one octet of the word at a time
  by_cases h8 : i < 8
  · grind
  by_cases h16 : i < 16
  · grind
  by_cases h24 : i < 24 <;> grind

@[simp] theorem length_octets16 (w : UInt16) : (octets16 w).length = 2 := rfl

@[simp] theorem length_octets32 (w : UInt32) : (octets32 w).length = 4 := rfl

theorem toNat_ofNat16 {n : Nat} (h : n ≤ 65535) : (UInt16.ofNat n).toNat = n := by
  rw [UInt16.toNat_ofNat']
  exact Nat.mod_eq_of_lt (by omega)

end Word

/-! ## Header flags -/

namespace Header

theorem bits_high : ∀ (response authoritative truncated desired : Bool) (opcode : Fin 16),
    let b := flagBit response 0x80 ||| UInt8.ofNat (opcode.val * 8) |||
      flagBit authoritative 0x04 ||| flagBit truncated 0x02 ||| flagBit desired 0x01
    bit b 0x80 = response ∧ b.toNat / 8 % 16 = opcode.val ∧ bit b 0x04 = authoritative ∧
      bit b 0x02 = truncated ∧ bit b 0x01 = desired := by
  decide

theorem bits_low : ∀ (available authentic disabled : Bool) (code : Fin 16),
    let b := flagBit available 0x80 ||| flagBit authentic 0x20 ||| flagBit disabled 0x10 |||
      UInt8.ofNat code.val
    bit b 0x80 = available ∧ bit b 0x20 = authentic ∧ bit b 0x10 = disabled ∧
      b.toNat % 16 = code.val := by
  decide

/-- A header without the bits of its response code that do not fit into the flags. -/
def withoutRcodeHigh (h : Header) : Header :=
  h.withRcodeHigh 0

/-- The flags of a header give it back, but for the upper bits of its response code. -/
theorem ofFlags_octets (h : Header) :
    ∃ high low, h.octets = Word.octets16 h.id ++ [high, low] ∧
      ofFlags h.id high low = h.withoutRcodeHigh := by
  refine ⟨_, _, rfl, ?_⟩
  obtain ⟨h1, h2, h3, h4, h5⟩ :=
    bits_high h.response h.authoritative h.truncated h.recursionDesired h.opcode
  obtain ⟨l1, l2, l3, l4⟩ := bits_low h.recursionAvailable h.authenticData h.checkingDisabled
    ⟨h.rcode.val % 16, Nat.mod_lt _ (by decide)⟩
  simp only [ofFlags, h1, h2, h3, h4, h5, l1, l2, l3, l4, withoutRcodeHigh, withRcodeHigh]
  simp

theorem withRcodeHigh_withoutRcodeHigh (h : Header) :
    h.withoutRcodeHigh.withRcodeHigh h.rcodeHigh = h := by
  have hcode : (UInt8.ofNat (h.rcode.val / 16)).toNat = h.rcode.val / 16 := by
    rw [UInt8.toNat_ofNat']
    exact Nat.mod_eq_of_lt (by have := h.rcode.isLt; omega)
  have hval : h.rcodeHigh.toNat * 16 + (0 * 16 + h.rcode.val % 16) % 16 = h.rcode.val := by
    rw [Header.rcodeHigh, hcode]
    omega
  cases h
  simp only [Header.withoutRcodeHigh, Header.withRcodeHigh] at hval ⊢
  congr

end Header

/-! ## Readers -/

theorem cutOctets?_append (h t : Bytes) : cutOctets? h.length (h ++ t) = some (h, t) := by
  induction h with
  | nil => cases t <;> rfl
  | cons b h ih => simp [cutOctets?, ih]

theorem drop_past {whole xs rest : Bytes} {n k : Nat} (h : whole.drop n = xs ++ rest)
    (hk : k = n + xs.length) : whole.drop k = rest := by
  rw [hk, ← List.drop_drop, h, List.drop_left]

namespace Reader

variable {α β : Type}

theorem run_bind_of {x : Reader α} {f : α → Reader β} {c d : Cursor} {a : α}
    (h : x.run c = some (a, d)) : (x >>= f).run c = (f a).run d := by
  rw [StateT.run_bind, h]
  rfl

theorem run_bind_eq_some {x : Reader α} {f : α → Reader β} {c : Cursor} {r : β × Cursor} :
    (x >>= f).run c = some r ↔ ∃ a d, x.run c = some (a, d) ∧ (f a).run d = some r := by
  rw [StateT.run_bind]
  cases x.run c with
  | none => simp
  | some p => exact ⟨fun h => ⟨p.1, p.2, rfl, h⟩, fun ⟨a, d, hp, h⟩ => by cases hp; exact h⟩

theorem octet_run (p : Nat) (b : UInt8) (r : Bytes) :
    octet.run ⟨p, b :: r⟩ = some (b, ⟨p + 1, r⟩) := rfl

theorem word16_run (p : Nat) (w : UInt16) (r : Bytes) :
    word16.run ⟨p, Word.octets16 w ++ r⟩ = some (w, ⟨p + 2, r⟩) := by
  have h : word16.run ⟨p, Word.octets16 w ++ r⟩ =
      some (Word.ofOctets16 (w >>> 8).toUInt8 w.toUInt8, ⟨p + 2, r⟩) := rfl
  rw [h, Word.ofOctets16_octets]

theorem word32_run (p : Nat) (w : UInt32) (r : Bytes) :
    word32.run ⟨p, Word.octets32 w ++ r⟩ = some (w, ⟨p + 4, r⟩) := by
  have h : word32.run ⟨p, Word.octets32 w ++ r⟩ =
      some (Word.ofOctets32 (w >>> 24).toUInt8 (w >>> 16).toUInt8 (w >>> 8).toUInt8 w.toUInt8,
        ⟨p + 4, r⟩) := rfl
  rw [h, Word.ofOctets32_octets]

theorem take_run {n : Nat} (p : Nat) (h t : Bytes) (hn : h.length = n) :
    (take n).run ⟨p, h ++ t⟩ = some (h, ⟨p + n, t⟩) := by
  subst hn
  show (cutOctets? h.length (h ++ t)).map _ = _
  rw [cutOctets?_append]
  rfl

/-- A value that is read from all of some octets is read from them when they are delimited. -/
theorem within_run {one : Reader α} {n p q : Nat} {part : Bytes} {a : α}
    (h : one.run ⟨p, part⟩ = some (a, ⟨q, []⟩)) (hn : part.length = n) (rest : Bytes) :
    (within n one).run ⟨p, part ++ rest⟩ = some (a, ⟨p + n, rest⟩) := by
  subst hn
  show ((cutOctets? part.length (part ++ rest)).bind fun x => (one.run ⟨p, x.1⟩).bind _) = _
  rw [cutOctets?_append, Option.bind_some, h]
  rfl

theorem within_eq_some {one : Reader α} {n : Nat} {c d : Cursor} {a : α}
    (h : (within n one).run c = some (a, d)) :
    ∃ part e, part.length = n ∧ one.run ⟨c.pos, part⟩ = some (a, e) := by
  change ((cutOctets? n c.rest).bind fun x => (one.run ⟨c.pos, x.1⟩).bind _) = _ at h
  obtain ⟨⟨part, rest⟩, hc, h⟩ := Option.bind_eq_some_iff.1 h
  obtain ⟨⟨b, e⟩, ho, h⟩ := Option.bind_eq_some_iff.1 h
  refine ⟨part, e, (eq_append_of_cutOctets? hc).2, ?_⟩
  by_cases he : e.rest.isEmpty
  · simp only [he, if_true, Option.some.injEq, Prod.mk.injEq] at h
    rw [ho, h.1]
  · simp [he] at h

theorem times_succ_run {one : Reader α} {n : Nat} {c d e : Cursor} {a : α} {as : List α}
    (h : one.run c = some (a, d)) (ht : (times one n).run d = some (as, e)) :
    (times one (n + 1)).run c = some (a :: as, e) := by
  rw [times, run_bind_of h, run_bind_of ht]
  rfl

theorem times_add_run {one : Reader α} {k : Nat} {d e : Cursor} {bs : List α}
    (h : (times one k).run d = some (bs, e)) : ∀ {n : Nat} {c : Cursor} {as : List α},
      (times one n).run c = some (as, d) → (times one (n + k)).run c = some (as ++ bs, e)
  | 0, c, as, ha => by
      cases ha
      rwa [Nat.zero_add]
  | n + 1, c, as, ha => by
      rw [times, run_bind_eq_some] at ha
      obtain ⟨a, c', hone, ha⟩ := ha
      obtain ⟨as', c'', has, ha⟩ := run_bind_eq_some.1 ha
      cases ha
      rw [Nat.succ_add]
      exact times_succ_run hone (times_add_run h has)

/-- What holds of each value that is read holds of all values read in a row. -/
theorem forall_mem_of_times {one : Reader α} {P : α → Prop}
    (hone : ∀ c a d, one.run c = some (a, d) → P a) :
    ∀ {n : Nat} {c d : Cursor} {as : List α}, (times one n).run c = some (as, d) → ∀ a ∈ as, P a
  | 0, c, d, as, h => by
      cases h
      simp
  | n + 1, c, d, as, h => by
      rw [times, run_bind_eq_some] at h
      obtain ⟨a, e, ha, h⟩ := h
      obtain ⟨bs, f, hbs, h⟩ := run_bind_eq_some.1 h
      cases h
      intro b hb
      rcases List.mem_cons.1 hb with rfl | hb
      · exact hone _ _ _ ha
      · exact forall_mem_of_times hone hbs b hb

end Reader

end SplitDns
