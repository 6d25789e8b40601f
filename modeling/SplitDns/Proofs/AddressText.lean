import Mathlib.Algebra.Group.Nat.Defs
import Mathlib.Data.List.TakeWhile
import SplitDns.Net.Address
import SplitDns.Proofs.NameText
import SplitDns.Proofs.Pieces
import SplitDns.Proofs.Records

/-!
# Addresses in text

Each address is read back from its text: an IPv4 address from its four numbers
(`Ipv4.parse?_text`), an IPv6 address from its groups, whether a run of zero groups was written `::`
or the last two groups in dotted form (`Ipv6.parse?_text`).  Numbers are read back from their digits
in any base up to sixteen (`Digits.read?_text`).
-/

namespace SplitDns

/-! ## Digits -/

namespace Digits

variable {base : Nat}

theorem value?_char : ∀ d < 16, value? (char d) = some d := by
  decide

theorem readFrom_append (n : Nat) (s t : Text) :
    readFrom base n (s ++ t) = (readFrom base n s).bind fun m => readFrom base m t := by
  induction s generalizing n with
  | nil => rfl
  | cons c s ih =>
    rw [List.cons_append, readFrom, readFrom]
    split
    · split
      · exact ih _
      · rfl
    · rfl

theorem readFrom_char {d : Nat} (hbase : base ≤ 16) (hd : d < base) (n : Nat) :
    readFrom base n [char d] = some (n * base + d) := by
  simp [readFrom, value?_char d (by omega), hd]

/-- The digits of a number say its value. -/
theorem readFrom_text (h2 : 2 ≤ base) (h16 : base ≤ 16) (n : Nat) :
    readFrom base 0 (text base n) = some n := by
  fun_induction text base n with
  | case1 n h =>
    rw [readFrom_char h16 (by omega)]
    simp
  | case2 n h ih =>
    rw [readFrom_append, ih, Option.bind_some, readFrom_char h16 (Nat.mod_lt _ (by omega))]
    exact congrArg some (Nat.div_add_mod' n base)

theorem text_ne_nil (base n : Nat) : text base n ≠ [] := by
  unfold text
  split <;> simp

theorem read?_text (h2 : 2 ≤ base) (h16 : base ≤ 16) (n : Nat) :
    read? base (text base n) = some n := by
  rw [read?, if_neg (by simpa using text_ne_nil base n), readFrom_text h2 h16]

/-- A number below a power of the base has no more digits than the exponent. -/
theorem length_text_le {k n : Nat} (hk : 1 ≤ k) (h : n < base ^ k) :
    (text base n).length ≤ k := by
  induction k generalizing n with
  | zero => omega
  | succ k ih =>
    unfold text
    split
    · simp
    · by_cases hzero : k = 0
      · simp [hzero] at h
        omega
      · have hdiv : n / base < base ^ k := Nat.div_lt_of_lt_mul (by rwa [← Nat.pow_succ'])
        have hlength := ih (by omega) hdiv
        simp
        omega

theorem exists_of_mem_text (h2 : 2 ≤ base) {n : Nat} {c : Char} (h : c ∈ text base n) :
    ∃ d < base, char d = c := by
  fun_induction text base n with
  | case1 n hn => exact ⟨n, by omega, (List.mem_singleton.1 h).symm⟩
  | case2 n hn ih =>
    rcases List.mem_append.1 h with h | h
    · exact ih h
    · exact ⟨n % base, Nat.mod_lt _ (by omega), (List.mem_singleton.1 h).symm⟩

/-- No digit is a separator of addresses or a blank. -/
theorem ne_of_mem_text (h2 : 2 ≤ base) (h16 : base ≤ 16) {n : Nat} {c : Char}
    (h : c ∈ text base n) : c ≠ '.' ∧ c ≠ ':' ∧ Text.isBlank c = false := by
  have hdigit : ∀ d < 16, char d ≠ '.' ∧ char d ≠ ':' ∧ Text.isBlank (char d) = false := by
    decide
  obtain ⟨d, hd, rfl⟩ := exists_of_mem_text h2 h
  exact hdigit d (by omega)

end Digits

/-! ## IPv4 -/

namespace Ipv4

theorem octet?_text : ∀ o : UInt8, octet? (Decimal.text o.toNat) = some o :=
  forall_octet (by decide +kernel)

theorem parse?_text (ip : Ipv4) : parse? ip.text = some ip := by
  have hpieces : ∀ piece ∈ ip.octets.map fun o => Decimal.text o.toNat, ∀ c ∈ piece,
      (c == '.') = false := by
    intro piece hpiece c hc
    obtain ⟨o, -, rfl⟩ := List.mem_map.1 hpiece
    simpa using (Digits.ne_of_mem_text (by decide) (by decide) hc).1
  rw [parse?, text, Text.split_join rfl (by simp [octets]) hpieces]
  simp [octets, octet?_text, ofOctets?]

/-- Without dots there is no IPv4 address. -/
theorem parse?_eq_none {t : Text} (h : '.' ∉ t) : parse? t = none := by
  have hsplit : Text.split (· == '.') t = [t] :=
    Text.split_eq_singleton fun c hc => beq_false_of_ne (ne_of_mem_of_not_mem hc h)
  rw [parse?, hsplit]
  cases hoctet : octet? t <;> simp [hoctet, ofOctets?]

/-- The text of an address consists of digits and dots. -/
theorem ne_of_mem_text {ip : Ipv4} {c : Char} (h : c ∈ ip.text) :
    c ≠ ':' ∧ Text.isBlank c = false := by
  rcases Text.mem_join h with h | ⟨piece, hpiece, h⟩
  · rw [List.mem_singleton.1 h]
    decide
  · obtain ⟨o, -, rfl⟩ := List.mem_map.1 hpiece
    exact (Digits.ne_of_mem_text (by decide) (by decide) h).2

end Ipv4

/-! ## IPv6 -/

namespace Ipv6

/-! ### Groups -/

theorem group?_text (g : UInt16) : group? (Digits.text 16 g.toNat) = some g := by
  have hlength : (Digits.text 16 g.toNat).length ≤ 4 :=
    Digits.length_text_le (by decide) g.toNat_lt
  rw [group?, if_pos hlength, Digits.read?_text (by decide) (by decide), Option.map_some,
    UInt16.ofNat_toNat]

theorem ne_of_mem_groupsText {gs : List UInt16} {c : Char} (h : c ∈ groupsText gs) :
    c ≠ '.' ∧ Text.isBlank c = false := by
  rcases Text.mem_join h with h | ⟨piece, hpiece, h⟩
  · rw [List.mem_singleton.1 h]
    decide
  · obtain ⟨g, -, rfl⟩ := List.mem_map.1 hpiece
    obtain ⟨hdot, -, hblank⟩ := Digits.ne_of_mem_text (by decide) (by decide) h
    exact ⟨hdot, hblank⟩

theorem groupsText_ne_nil {gs : List UInt16} (h : gs ≠ []) : groupsText gs ≠ [] := by
  obtain ⟨g, gs, rfl⟩ := List.exists_cons_of_ne_nil h
  cases gs with
  | nil => simpa [groupsText, Text.join] using Digits.text_ne_nil 16 g.toNat
  | cons g' gs => simp [groupsText, Text.join, List.intercalate_cons_cons]

theorem plainGroups?_groupsText {gs : List UInt16} (h : gs ≠ []) :
    plainGroups? (groupsText gs) = some gs := by
  have hpieces : ∀ piece ∈ gs.map fun g => Digits.text 16 g.toNat, ∀ c ∈ piece,
      (c == ':') = false := by
    intro piece hpiece c hc
    obtain ⟨g, -, rfl⟩ := List.mem_map.1 hpiece
    simpa using (Digits.ne_of_mem_text (by decide) (by decide) hc).2.1
  rw [plainGroups?, groupsText, Text.split_join rfl (by simpa using h) hpieces, List.mapM_map]
  simp only [Function.comp_def, group?_text]
  exact (List.mapM_pure (m := Option)).trans (by simp)

/-- Without dots no group is in dotted form. -/
theorem groups?_eq_plainGroups? {t : Text} (h : '.' ∉ t) : groups? t = plainGroups? t := by
  unfold groups?
  split
  · rw [Ipv4.parse?_eq_none h]
    rfl
  next head last hcut =>
    have hlast : '.' ∉ last := by
      rw [Text.eq_append_of_cutLast? hcut] at h
      simp_all
    rw [Ipv4.parse?_eq_none hlast]

/-! ### Gaps -/

theorem cutGap?_cons {c : Char} (h : c ≠ ':') (r : Text) :
    cutGap? (c :: r) = (cutGap? r).map fun (a, b) => (c :: a, b) := by
  rw [cutGap?]
  simp [h]

/-- A single colon opens no gap. -/
theorem cutGap?_colon {c : Char} (h : c ≠ ':') (r : Text) :
    cutGap? (':' :: c :: r) = (cutGap? (c :: r)).map fun (a, b) => (':' :: a, b) := by
  rw [cutGap?]
  simp [h]

theorem cutGap?_append {s : Text} (h : ∀ c ∈ s, c ≠ ':') (rest : Text) :
    cutGap? (s ++ rest) = (cutGap? rest).map fun (a, b) => (s ++ a, b) := by
  induction s with
  | nil => simp
  | cons c s ih =>
    obtain ⟨hc, hs⟩ := List.forall_mem_cons.1 h
    rw [List.cons_append, cutGap?_cons hc, ih hs, Option.map_map]
    rfl

theorem groupsText_cons (g g' : UInt16) (gs : List UInt16) :
    groupsText (g :: g' :: gs) = Digits.text 16 g.toNat ++ ':' :: groupsText (g' :: gs) := by
  simp [groupsText, Text.join, List.intercalate_cons_cons]

theorem ne_colon_of_mem_text {g : UInt16} {c : Char} (h : c ∈ Digits.text 16 g.toNat) : c ≠ ':' :=
  (Digits.ne_of_mem_text (by decide) (by decide) h).2.1

/-- Groups start with a digit. -/
theorem exists_groupsText (g : UInt16) (gs : List UInt16) :
    ∃ c r, groupsText (g :: gs) = c :: r ∧ c ≠ ':' := by
  obtain ⟨c, r, hr⟩ := List.exists_cons_of_ne_nil (Digits.text_ne_nil 16 g.toNat)
  have hc : c ≠ ':' := ne_colon_of_mem_text (g := g) (by simp [hr])
  cases gs with
  | nil => exact ⟨c, r, by simpa [groupsText, Text.join] using hr, hc⟩
  | cons g' gs => exact ⟨c, _, by rw [groupsText_cons, hr, List.cons_append], hc⟩

/-- There is no gap within groups. -/
theorem cutGap?_groupsText (gs : List UInt16) (rest : Text) :
    cutGap? (groupsText gs ++ rest) =
      (cutGap? rest).map fun (a, b) => (groupsText gs ++ a, b) := by
  induction gs with
  | nil => simp [groupsText, Text.join, List.intercalate]
  | cons g gs ih =>
    have hpiece : ∀ c ∈ Digits.text 16 g.toNat, c ≠ ':' := fun c => ne_colon_of_mem_text
    cases gs with
    | nil =>
      have hone : groupsText [g] = Digits.text 16 g.toNat := by
        simp [groupsText, Text.join]
      rw [hone, cutGap?_append hpiece]
    | cons g' gs =>
      obtain ⟨c, r, hr, hc⟩ := exists_groupsText g' gs
      have hcolon : cutGap? (':' :: (groupsText (g' :: gs) ++ rest)) =
          (cutGap? (groupsText (g' :: gs) ++ rest)).map fun (a, b) => (':' :: a, b) := by
        rw [hr]
        exact cutGap?_colon hc _
      rw [groupsText_cons, List.append_assoc, List.cons_append, cutGap?_append hpiece, hcolon, ih,
        Option.map_map, Option.map_map]
      congr 1
      funext p
      simp

/-! ### Runs of zero groups -/

theorem take_of_le_zeros {gs : List UInt16} {n : Nat} (h : n ≤ zeros gs) :
    gs.take n = List.replicate n 0 := by
  have hstart : gs.take n <+: gs.takeWhile (· == 0) :=
    List.prefix_of_prefix_length_le (List.take_prefix n gs) (List.takeWhile_prefix _)
      (Nat.le_trans (List.length_take_le n gs) h)
  have hlength : n ≤ gs.length := Nat.le_trans h (List.takeWhile_prefix _).length_le
  rw [List.eq_replicate_iff]
  refine ⟨List.length_take_of_le hlength, fun g hg => ?_⟩
  simpa using List.mem_takeWhile_imp (hstart.subset hg)

/-- The longest run of zero groups is one. -/
theorem longestZeros_le (gs : List UInt16) :
    (longestZeros gs).2 ≤ zeros (gs.drop (longestZeros gs).1) := by
  unfold longestZeros
  apply List.foldlRecOn (motive := fun best : Nat × Nat => best.2 ≤ zeros (gs.drop best.1))
  · exact Nat.zero_le _
  · intro best hbest i _
    split
    · exact Nat.le_refl _
    · exact hbest

/-- With its longest run of zero groups put back an address is whole. -/
theorem fill_longestZeros (gs : List UInt16) :
    gs.take (longestZeros gs).1 ++ List.replicate (longestZeros gs).2 0 ++
      gs.drop ((longestZeros gs).1 + (longestZeros gs).2) = gs := by
  rw [← take_of_le_zeros (longestZeros_le gs), List.append_assoc, ← List.drop_drop,
    List.take_append_drop, List.take_append_drop]

/-! ### Addresses -/

theorem side?_groupsText {read : Text → Option (List UInt16)} {gs : List UInt16}
    (h : gs ≠ [] → read (groupsText gs) = some gs) : side? read (groupsText gs) = some gs := by
  by_cases hgs : gs = []
  · rw [hgs]
    rfl
  · rw [side?, if_neg (by simpa using groupsText_ne_nil hgs), h hgs]

theorem groups?_groupsText {gs : List UInt16} (h : gs ≠ []) :
    groups? (groupsText gs) = some gs := by
  rw [groups?_eq_plainGroups? (fun hmem => (ne_of_mem_groupsText hmem).1 rfl),
    plainGroups?_groupsText h]

/-- An address with a gap is read back. -/
theorem parse?_gap {gs : List UInt16} {start count : Nat} (h8 : gs.length = 8)
    (hcount : 1 ≤ count) (hend : start + count ≤ 8)
    (hgap : gs.take start ++ List.replicate count 0 ++ gs.drop (start + count) = gs) :
    parse? (groupsText (gs.take start) ++ "::".toList ++ groupsText (gs.drop (start + count))) =
      some ⟨gs, h8⟩ := by
  have hcut : cutGap? (groupsText (gs.take start) ++ "::".toList ++
      groupsText (gs.drop (start + count))) =
      some (groupsText (gs.take start), groupsText (gs.drop (start + count))) := by
    rw [List.append_assoc, cutGap?_groupsText]
    simp [cutGap?]
  have hlengths : (gs.take start).length = start ∧ (gs.drop (start + count)).length =
      8 - (start + count) := by
    rw [List.length_take, List.length_drop]
    omega
  have hzeros : 8 - (gs.take start).length - (gs.drop (start + count)).length = count := by
    omega
  simp only [parse?, hcut, side?_groupsText plainGroups?_groupsText,
    side?_groupsText groups?_groupsText, Option.bind_eq_bind, Option.bind_some, hzeros, hgap]
  rw [if_pos (by omega), ofGroups?, dif_pos h8]

/-- An address without a gap is read back. -/
theorem parse?_groupsText {gs : List UInt16} (h8 : gs.length = 8) :
    parse? (groupsText gs) = some ⟨gs, h8⟩ := by
  have hne : gs ≠ [] := by
    rintro rfl
    cases h8
  have hcut : cutGap? (groupsText gs) = none := by
    have h := cutGap?_groupsText gs []
    rwa [List.append_nil] at h
  rw [parse?, hcut]
  simp only [groups?_groupsText hne, Option.bind_some, ofGroups?]
  exact dif_pos h8

/-- The dotted address of a mapped one stands for its last two groups. -/
theorem groups_of_mapped? {ip : Ipv6} {v4 : Ipv4} (h : ip.mapped? = some v4) :
    ip.groups = List.replicate 5 0 ++ 0xffff :: groupsOfIpv4 v4 := by
  unfold mapped? at h
  split at h
  next g h' hgroups =>
    cases h
    have hg : joinOctets (g >>> 8).toUInt8 g.toUInt8 = g := Word.ofOctets16_octets g
    have hh' : joinOctets (h' >>> 8).toUInt8 h'.toUInt8 = h' := Word.ofOctets16_octets h'
    rw [hgroups, groupsOfIpv4, hg, hh']
    rfl
  next => cases h

/-- A mapped address is read back from its dotted form. -/
theorem parse?_mapped {ip : Ipv6} {v4 : Ipv4} (h : ip.mapped? = some v4) :
    parse? ("::ffff:".toList ++ v4.text) = some ip := by
  have hcolon : ':' ∉ v4.text := fun hmem => (Ipv4.ne_of_mem_text hmem).1 rfl
  have hcut : cutGap? ("::ffff:".toList ++ v4.text) = some ([], "ffff:".toList ++ v4.text) := rfl
  have hgroups : groups? ("ffff:".toList ++ v4.text) = some (0xffff :: groupsOfIpv4 v4) := by
    have hlast : Text.cutLast? ':' ("ffff:".toList ++ v4.text) = some ("ffff".toList, v4.text) :=
      Text.cutLast?_append "ffff".toList hcolon
    have hffff : plainGroups? "ffff".toList = some [0xffff] := by decide
    rw [groups?, hlast]
    simp only [Ipv4.parse?_text, hffff]
    rfl
  have htail : side? groups? ("ffff:".toList ++ v4.text) = some (0xffff :: groupsOfIpv4 v4) := by
    rw [side?, if_neg (by simp), hgroups]
  have hwhole : ofGroups? (List.replicate 5 0 ++ 0xffff :: groupsOfIpv4 v4) = some ip := by
    rw [← groups_of_mapped? h]
    exact dif_pos ip.length_groups
  simp only [parse?, hcut, htail, Option.bind_eq_bind, Option.bind_some]
  exact hwhole

theorem parse?_text (ip : Ipv6) : parse? ip.text = some ip := by
  unfold text
  cases hmapped : ip.mapped? with
  | some v4 => exact parse?_mapped hmapped
  | none =>
    have hle := longestZeros_le ip.groups
    have hfill := fill_longestZeros ip.groups
    generalize longestZeros ip.groups = run at hle hfill
    obtain ⟨start, count⟩ := run
    by_cases hcount : 2 ≤ count
    · have hbound : zeros (ip.groups.drop start) ≤ 8 - start := by
        rw [← ip.length_groups, ← List.length_drop]
        exact (List.takeWhile_prefix _).length_le
      simp only [hcount, if_true]
      exact parse?_gap ip.length_groups (by omega) (by simp at hle; omega) hfill
    · simp only [hcount, if_false]
      exact parse?_groupsText ip.length_groups

end Ipv6

end SplitDns
