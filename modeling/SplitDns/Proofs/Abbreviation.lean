import SplitDns.Proofs.Reading

/-!
# Abbreviated names

A name that is written with a pointer to labels further up is read back.  The invariant is
`Place.Sound`: every run of labels that a place knows of stands in the message before that place
and can be pointed to.  Writing a name preserves it (`Name.sound_write`), and under it the reader
takes back the labels (`Name.read_write`).
-/

namespace SplitDns

/-! ## Steps of the label reader -/

namespace Reader

theorem labels_root {whole r : Bytes} {ceiling start pos : Nat} (h : pos < ceiling) :
    labels whole ceiling start ⟨pos, 0 :: r⟩ = some ([], ⟨pos + 1, r⟩) := by
  rw [labels, if_neg (Nat.not_le.2 h)]
  rfl

theorem labels_label {whole t : Bytes} {ceiling start pos : Nat} {l : Label}
    (h : pos < ceiling) (hne : l ≠ []) (hl : l.length ≤ 63) :
    labels whole ceiling start ⟨pos, Name.labelOctets l ++ t⟩ =
      (labels whole ceiling start ⟨pos + (l.length + 1), t⟩).map fun (ls, d) => (l :: ls, d) := by
  have hpos : 0 < l.length := List.length_pos_iff.2 hne
  have hn : (UInt8.ofNat l.length).toNat = l.length := by
    rw [UInt8.toNat_ofNat']
    exact Nat.mod_eq_of_lt (by omega)
  have h0 : UInt8.ofNat l.length ≠ 0 := fun e => by
    rw [e] at hn
    simp at hn
    omega
  have h64 : UInt8.ofNat l.length < 64 := by
    rw [UInt8.lt_iff_toNat_lt, hn]
    exact Nat.lt_of_le_of_lt hl (by decide)
  rw [Name.labelOctets, List.cons_append, labels, if_neg (Nat.not_le.2 h)]
  simp only [h0, h64, if_true, if_false]
  have hc : cutOctets? (UInt8.ofNat l.length).toNat (l ++ t) = some (l, t) := by
    rw [hn, cutOctets?_append]
  split
  · next e => rw [hc] at e; cases e
  · next e =>
    rw [hc] at e
    cases e
    rw [hn, Nat.add_assoc, Nat.add_comm 1]

theorem labels_pointer {whole r : Bytes} {ceiling start pos target : Nat}
    (h : pos < ceiling) (hp : target < 16384) (ht : target < start) :
    labels whole ceiling start ⟨pos, pointer target ++ r⟩ =
      (labels whole start target ⟨target, whole.drop target⟩).map
        fun (ls, _) => (ls, ⟨pos + 2, r⟩) := by
  have hb : (UInt8.ofNat (192 + target / 256)).toNat = 192 + target / 256 := by
    rw [UInt8.toNat_ofNat']
    exact Nat.mod_eq_of_lt (by omega)
  have hb' : (UInt8.ofNat (target % 256)).toNat = target % 256 := by
    rw [UInt8.toNat_ofNat']
    exact Nat.mod_eq_of_lt (by omega)
  have h192 : ¬ UInt8.ofNat (192 + target / 256) < 192 := by
    rw [UInt8.lt_iff_toNat_lt, hb]
    exact Nat.not_lt.2 (Nat.le_add_right 192 _)
  have h64 : ¬ UInt8.ofNat (192 + target / 256) < 64 := fun e =>
    h192 (UInt8.lt_trans e (by decide))
  have h0 : UInt8.ofNat (192 + target / 256) ≠ 0 := fun e => by
    rw [e] at h64
    exact h64 (by decide)
  rw [pointer, List.cons_append, List.cons_append, List.nil_append, labels,
    if_neg (Nat.not_le.2 h)]
  simp only [h0, h64, h192, if_false, hb, hb']
  have ht' : (192 + target / 256 - 192) * 256 + target % 256 = target := by omega
  simp only [ht', ht, if_true]


/-- Labels that end below a ceiling end below a higher one. -/
theorem labels_mono {whole : Bytes} {low high start : Nat} (h : low ≤ high) {c d : Cursor}
    {ls : List Label} (hr : labels whole low start c = some (ls, d)) :
    labels whole high start c = some (ls, d) := by
  -- the ceiling only matters along one run of labels: behind a pointer there is another one
  induction hn : c.rest.length using Nat.strongRecOn generalizing c d ls with
  | _ n ih =>
    subst hn
    obtain ⟨pos, bs⟩ := c
    rw [labels] at hr ⊢
    split at hr
    · cases hr
    next hlow =>
      rw [if_neg (by omega)]
      cases bs with
      | nil => exact hr
      | cons b r =>
        simp only at hr ⊢
        split at hr
        · next h0 => rw [if_pos h0]; exact hr
        next h0 =>
          rw [if_neg h0]
          split at hr
          · next h64 =>
            rw [if_pos h64]
            split at hr
            · cases hr
            · next l t hc =>
              obtain ⟨⟨ls', d'⟩, ht, he⟩ := Option.map_eq_some_iff.1 hr
              have hlen := length_le_of_cutOctets? hc
              rw [ih t.length (by simp; omega) ht rfl]
              simpa using he
          · next h64 => rw [if_neg h64]; exact hr

/-- Labels can be read at an offset, and they end below a ceiling. -/
def Resolves (whole : Bytes) (ceiling offset : Nat) (ls : List Label) : Prop :=
  ∃ d, labels whole ceiling offset ⟨offset, whole.drop offset⟩ = some (ls, d)

theorem Resolves.mono {whole : Bytes} {low high offset : Nat} {ls : List Label}
    (h : Resolves whole low offset ls) (hle : low ≤ high) : Resolves whole high offset ls := by
  obtain ⟨d, hd⟩ := h
  exact ⟨d, labels_mono hle hd⟩

theorem Resolves.lt {whole : Bytes} {ceiling offset : Nat} {ls : List Label}
    (h : Resolves whole ceiling offset ls) : offset < ceiling := by
  obtain ⟨d, hd⟩ := h
  rw [labels] at hd
  split at hd
  · cases hd
  · next h => exact Nat.lt_of_not_le h

end Reader

open Reader

/-! ## Places -/

namespace Place

/-- Runs of at most `n` labels that a place knows of end below a ceiling and can be pointed to. -/
def Knows (p : Place) (whole : Bytes) (ceiling n : Nat) : Prop :=
  ∀ ls offset, (ls, offset) ∈ p.runs → ls.length ≤ n →
    offset < reach ∧ Resolves whole ceiling offset ls

/-- All runs that a place knows of end before that place and can be pointed to. -/
def Sound (p : Place) (whole : Bytes) : Prop :=
  ∀ ls offset, (ls, offset) ∈ p.runs → offset < reach ∧ Resolves whole p.offset offset ls

theorem sound_start (whole : Bytes) (offset : Nat) : (start offset).Sound whole := by
  intro ls o h
  cases h

theorem Sound.skip {p : Place} {whole : Bytes} (h : p.Sound whole) (n : Nat) :
    (p.skip n).Sound whole := by
  intro ls o hm
  obtain ⟨hr, hs⟩ := h ls o hm
  exact ⟨hr, hs.mono (Nat.le_add_right _ _)⟩

theorem Sound.knows {p : Place} {whole : Bytes} (h : p.Sound whole) (n : Nat) :
    p.Knows whole p.offset n :=
  fun ls o hm _ => h ls o hm

theorem mem_of_offsetOf? {p : Place} {ls : List Label} {offset : Nat}
    (h : p.offsetOf? ls = some offset) : (ls, offset) ∈ p.runs := by
  obtain ⟨run, hf, rfl⟩ := Option.map_eq_some_iff.1 h
  have he : run.1 = ls := by simpa using List.find?_some hf
  rw [← he]
  exact List.mem_of_find?_eq_some hf

end Place

/-! ## Names -/

namespace Name

/-- The first label of a run is replaced by a pointer or written in full; then the rest is written
at a place behind it that may know of the run. -/
theorem writeLabels_cons (abbreviate : Bool) (stop : Nat) (l : Label) (ls : List Label)
    (p : Place) :
    (∃ offset, (l :: ls, offset) ∈ p.runs ∧
      writeLabels abbreviate stop (l :: ls) p = (pointer offset, p.skip 2)) ∨
    ∃ p' : Place, p'.offset = p.offset + (l.length + 1) ∧
      (p'.runs = p.runs ∨ stop < Place.reach ∧ p'.runs = p.runs ++ [(l :: ls, p.offset)]) ∧
      writeLabels abbreviate stop (l :: ls) p =
        (labelOctets l ++ (writeLabels abbreviate stop ls p').1,
          (writeLabels abbreviate stop ls p').2) := by
  cases h : p.offsetOf? (l :: ls) with
  | some offset =>
    cases abbreviate with
    | true => exact .inl ⟨offset, Place.mem_of_offsetOf? h, by simp [writeLabels, h]⟩
    | false => exact .inr ⟨p.skip (l.length + 1), rfl, .inl rfl, by simp [writeLabels, h]⟩
  | none =>
    refine .inr ⟨(p.note (l :: ls) stop).skip (l.length + 1), ?_, ?_, by simp [writeLabels, h]⟩
    · unfold Place.note
      split <;> rfl
    · unfold Place.note
      split
      · next hs => exact .inr ⟨hs, rfl⟩
      · exact .inl rfl

theorem writeLabels_offset (abbreviate : Bool) (stop : Nat) (ls : List Label) (p : Place) :
    (writeLabels abbreviate stop ls p).2.offset =
      p.offset + (writeLabels abbreviate stop ls p).1.length := by
  induction ls generalizing p with
  | nil => rfl
  | cons l ls ih =>
    obtain ⟨offset, -, h⟩ | ⟨p', ho, -, h⟩ := writeLabels_cons abbreviate stop l ls p
    · rw [h]
      rfl
    · rw [h, ih p', ho]
      simp [labelOctets]
      omega

theorem writeLabels_ne_nil (abbreviate : Bool) (stop : Nat) (ls : List Label) (p : Place) :
    (writeLabels abbreviate stop ls p).1 ≠ [] := by
  cases ls with
  | nil => simp [writeLabels]
  | cons l ls =>
    obtain ⟨offset, -, h⟩ | ⟨p', -, -, h⟩ := writeLabels_cons abbreviate stop l ls p
    · simp [h, pointer]
    · simp [h, labelOctets]

theorem knows_of_runs {p p' : Place} {whole : Bytes} {ceiling offset : Nat} {l : Label}
    {ls : List Label} (h : p.Knows whole ceiling (l :: ls).length)
    (hr : p'.runs = p.runs ∨ p'.runs = p.runs ++ [(l :: ls, offset)]) :
    p'.Knows whole ceiling ls.length := by
  intro ks o hm hlen
  have hm' : (ks, o) ∈ p.runs := by
    rcases hr with hr | hr
    · rwa [hr] at hm
    · rw [hr, List.mem_append, List.mem_singleton] at hm
      rcases hm with hm | hm
      · exact hm
      · cases hm
        simp only [List.length_cons] at hlen
        omega
  exact h ks o hm' (Nat.le_succ_of_le hlen)

/-- Written labels are read back, also as part of a longer run that starts before them. -/
theorem labels_writeLabels {whole rest : Bytes} {ceiling start stop : Nat} {abbreviate : Bool} :
    ∀ {ls : List Label} {p : Place}, (∀ l ∈ ls, l ≠ [] ∧ l.length ≤ 63) →
      p.Knows whole start ls.length → start ≤ p.offset →
      (writeLabels abbreviate stop ls p).2.offset ≤ ceiling →
      Reader.labels whole ceiling start ⟨p.offset, (writeLabels abbreviate stop ls p).1 ++ rest⟩ =
        some (ls, ⟨(writeLabels abbreviate stop ls p).2.offset, rest⟩)
  | [], p, _, _, _, hc => labels_root hc
  | l :: ls, p, hl, hk, hs, hc => by
      obtain ⟨hne, hlen⟩ := hl l (by simp)
      have hlt : p.offset < ceiling := by
        have := writeLabels_offset abbreviate stop (l :: ls) p
        have := List.length_pos_iff.2 (writeLabels_ne_nil abbreviate stop (l :: ls) p)
        omega
      obtain ⟨offset, hm, h⟩ | ⟨p', ho, hr, h⟩ := writeLabels_cons abbreviate stop l ls p
      · obtain ⟨hreach, hres⟩ := hk _ _ hm (Nat.le_refl _)
        have hlow := hres.lt
        obtain ⟨d, hd⟩ := hres
        have h16 : offset < 16384 := Nat.lt_of_lt_of_le hreach (by decide)
        rw [h, labels_pointer hlt h16 hlow, hd]
        rfl
      · rw [h] at hc ⊢
        have hk' := knows_of_runs hk (hr.imp_right And.right)
        rw [List.append_assoc, labels_label hlt hne hlen, ← ho,
          labels_writeLabels (fun k hk => hl k (by simp [hk])) hk' (by omega) hc]
        rfl

/-- Each run that is noted while labels are written can be read in what was written. -/
theorem resolves_of_mem_writeLabels {whole rest : Bytes} {start stop : Nat} {abbreviate : Bool} :
    ∀ {ls : List Label} {p : Place}, (∀ l ∈ ls, l ≠ [] ∧ l.length ≤ 63) →
      p.Knows whole start ls.length → start ≤ p.offset →
      p.offset + wireLength ls ≤ stop + 1 →
      whole.drop p.offset = (writeLabels abbreviate stop ls p).1 ++ rest →
      ∀ ks o, (ks, o) ∈ (writeLabels abbreviate stop ls p).2.runs → (ks, o) ∈ p.runs ∨
        o < Place.reach ∧ Resolves whole (writeLabels abbreviate stop ls p).2.offset o ks
  | [], p, _, _, _, _, _ => fun ks o hm => .inl hm
  | l :: ls, p, hl, hk, hs, hstop, hd => by
      intro ks o hm
      -- the whole run, should it be noted, starts at `p`
      have hrun : Resolves whole (writeLabels abbreviate stop (l :: ls) p).2.offset p.offset
          (l :: ls) := by
        refine ⟨⟨(writeLabels abbreviate stop (l :: ls) p).2.offset, rest⟩, ?_⟩
        rw [hd]
        refine labels_writeLabels hl (fun ks o hm hlen => ?_) (Nat.le_refl _) (Nat.le_refl _)
        exact ⟨(hk ks o hm hlen).1, (hk ks o hm hlen).2.mono hs⟩
      obtain ⟨offset, -, h⟩ | ⟨p', ho, hr, h⟩ := writeLabels_cons abbreviate stop l ls p
      · rw [h] at hm
        exact .inl hm
      · rw [h] at hm hd hrun ⊢
        have hk' := knows_of_runs hk (hr.imp_right And.right)
        have hstop' : p'.offset + wireLength ls ≤ stop + 1 := by
          rw [ho]
          simp only [wireLength] at hstop
          omega
        have hd' : whole.drop p'.offset = (writeLabels abbreviate stop ls p').1 ++ rest := by
          rw [ho, ← List.drop_drop, hd, List.append_assoc]
          exact List.drop_left
        rcases resolves_of_mem_writeLabels (fun k hk => hl k (by simp [hk])) hk' (by omega) hstop'
          hd' ks o hm with hm | hm
        · rcases hr with hr | ⟨hreach, hr⟩
          · exact .inl (hr ▸ hm)
          · rw [hr, List.mem_append, List.mem_singleton] at hm
            rcases hm with hm | hm
            · exact .inl hm
            · cases hm
              refine .inr ⟨?_, hrun⟩
              simp only [wireLength] at hstop
              omega
        · exact .inr hm

theorem ofLabels?_labels (n : Name) : ofLabels? n.labels = some n :=
  dif_pos n.fits

theorem wireLength_pos (ls : List Label) : 0 < wireLength ls := by
  cases ls with
  | nil => exact Nat.one_pos
  | cons l ls => exact Nat.add_pos_left (Nat.succ_pos _) _

/-- A name that is written at a sound place of a message is read back there, and the place after
it is sound again. -/
theorem read_write {whole rest bs : Bytes} {abbreviate : Bool} {n : Name} {p q : Place}
    (hw : n.write abbreviate p = some (bs, q)) (hp : p.Sound whole)
    (hd : whole.drop p.offset = bs ++ rest) :
    bs ≠ [] ∧ q.offset = p.offset + bs.length ∧ q.Sound whole ∧
      ∀ rest', (Reader.name whole).run ⟨p.offset, bs ++ rest'⟩ = some (n, ⟨q.offset, rest'⟩) := by
  unfold write at hw
  simp only [Option.ite_none_left_eq_some, Option.some.injEq] at hw
  obtain ⟨-, hw⟩ := hw
  generalize hstop : p.offset + (wireLength n.labels - 1) = stop at hw
  have hoff := writeLabels_offset abbreviate stop n.labels p
  have hne := writeLabels_ne_nil abbreviate stop n.labels p
  rw [hw] at hoff hne
  simp only at hoff
  have hlen : q.offset ≤ whole.length := by
    have := congrArg List.length hd
    have := List.length_pos_iff.2 hne
    simp only [List.length_drop, List.length_append] at *
    omega
  refine ⟨hne, hoff, ?_, fun rest' => ?_⟩
  · intro ks o hm
    have hd' : whole.drop p.offset = (writeLabels abbreviate stop n.labels p).1 ++ rest := by
      rw [hw, hd]
    have hpos := wireLength_pos n.labels
    have hres := resolves_of_mem_writeLabels n.fits.1 (hp.knows _) (Nat.le_refl _) (by omega)
      hd' ks o
    rw [hw] at hres
    rcases hres hm with hm | hres
    · exact ⟨(hp ks o hm).1, (hp ks o hm).2.mono (by omega)⟩
    · exact hres
  · have hr : Reader.labels whole whole.length p.offset ⟨p.offset, bs ++ rest'⟩ =
        some (n.labels, ⟨q.offset, rest'⟩) := by
      have h := @labels_writeLabels whole rest' whole.length p.offset stop abbreviate n.labels p
        n.fits.1 (hp.knows _) (Nat.le_refl _)
      rw [hw] at h
      exact h hlen
    show (Reader.labels whole whole.length p.offset ⟨p.offset, bs ++ rest'⟩).bind _ = _
    rw [hr]
    show (ofLabels? n.labels).bind _ = _
    rw [ofLabels?_labels]
    rfl

/-- A pointer is read as the name whose labels stand where it points to. -/
theorem read_pointer {whole r : Bytes} {n : Name} {target pos : Nat}
    (h : Resolves whole pos target n.labels) (ht : target < 16384) (hpos : pos < whole.length) :
    (Reader.name whole).run ⟨pos, pointer target ++ r⟩ = some (n, ⟨pos + 2, r⟩) := by
  have hlow := h.lt
  obtain ⟨d, hd⟩ := h
  show (Reader.labels whole whole.length pos ⟨pos, pointer target ++ r⟩).bind _ = _
  rw [labels_pointer hpos ht hlow, hd]
  show (ofLabels? n.labels).bind _ = _
  rw [ofLabels?_labels]
  rfl

end Name

end SplitDns
