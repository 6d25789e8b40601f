import SplitDns.Text.Base64
import SplitDns.Text.Utf8

/-!
# Codecs of texts

Both codecs are read back and have one written form: octets are read as the text whose UTF-8 form
they are (`Utf8.decode?_eq_some_iff`), and a base64 text as the octets whose padded encoding it is
(`Base64.decode?_eq_some_iff`).
-/

namespace SplitDns

namespace Utf8

theorem decode?_eq_some_iff {bs : Bytes} {t : Text} : decode? bs = some t ↔ bs = encode t := by
  have hencode : (encode t).toByteArray = t.utf8Encode := rfl
  rw [decode?, Option.map_eq_some_iff]
  constructor
  · rintro ⟨s, hs, rfl⟩
    unfold String.fromUTF8? at hs
    split at hs
    next hvalid =>
      cases hs
      rw [← List.toByteArray_inj, hencode, String.utf8Encode_toList]
      rfl
    next => cases hs
  · rintro rfl
    refine ⟨String.ofList t, ?_, String.toList_ofList⟩
    rw [String.fromUTF8?, dif_pos (hencode ▸ ByteArray.isValidUTF8_utf8Encode)]
    rfl

theorem decode?_encode (t : Text) : decode? (encode t) = some t :=
  decode?_eq_some_iff.2 rfl

theorem encode_inj {s t : Text} (h : encode s = encode t) : s = t := by
  have hdecode := decode?_encode s
  rw [h, decode?_encode] at hdecode
  exact (Option.some.inj hdecode).symm

end Utf8

namespace Base64

/-! ## Digits -/

theorem value?_char : ∀ d < 64, value? (char d) = some d := by
  decide

/-- No digit is the padding or a blank. -/
theorem char_ne : ∀ d < 64, char d ≠ '=' ∧ Text.isBlank (char d) = false := by
  decide

theorem of_value? {c : Char} {d : Nat} (h : value? c = some d) : d < 64 ∧ char d = c := by
  have hascii : ∀ n < 128, ∀ d ∈ value? (Char.ofNat n), d < 64 ∧ char d = Char.ofNat n := by
    decide
  have hlt : c.toNat < 128 := by
    grind [value?]
  have hc := hascii c.toNat hlt d
  rw [Char.ofNat_toNat] at hc
  exact hc h

/-! ## Groups -/

theorem octet_eq {n : Nat} {b : UInt8} (h : n = b.toNat) : UInt8.ofNat n = b :=
  h ▸ UInt8.ofNat_toNat

theorem decode?_single {x y : Nat} (hx : x < 64) (hy : y < 64) (hrest : y % 16 = 0) :
    decode? [char x, char y, '=', '='] = some [UInt8.ofNat ((x * 64 + y) / 16)] := by
  simp [decode?, value?_char x hx, value?_char y hy, hrest]

theorem decode?_pair {x y z : Nat} (hx : x < 64) (hy : y < 64) (hz : z < 64)
    (hrest : z % 4 = 0) :
    decode? [char x, char y, char z, '='] =
      some [UInt8.ofNat (((x * 64 + y) * 64 + z) / 1024),
        UInt8.ofNat (((x * 64 + y) * 64 + z) / 4 % 256)] := by
  simp [decode?, value?_char x hx, value?_char y hy, value?_char z hz, hrest, (char_ne z hz).1]

theorem decode?_triple {x y z w : Nat} (hx : x < 64) (hy : y < 64) (hz : z < 64) (hw : w < 64)
    {rest : Text} {tail : Bytes} (hrest : decode? rest = some tail) :
    decode? (char x :: char y :: char z :: char w :: rest) =
      some (UInt8.ofNat ((((x * 64 + y) * 64 + z) * 64 + w) / 65536) ::
        UInt8.ofNat ((((x * 64 + y) * 64 + z) * 64 + w) / 256 % 256) ::
        UInt8.ofNat ((((x * 64 + y) * 64 + z) * 64 + w) % 256) :: tail) := by
  rw [decode?]
  · simp [value?_char x hx, value?_char y hy, value?_char z hz, value?_char w hw, hrest]
  · exact fun h => absurd h (char_ne z hz).1
  · exact fun h => absurd h (char_ne w hw).1

/-- What is encoded is decoded: the octets of a group have the bits of its digits. -/
theorem decode?_encode (bs : Bytes) : decode? (encode bs) = some bs := by
  fun_induction encode bs with
  | case1 => rfl
  | case2 a n =>
    have ha := a.toNat_lt
    rw [decode?_single (by omega) (by omega) (by omega), octet_eq (b := a) (by omega)]
  | case3 a b n =>
    have ha := a.toNat_lt
    have hb := b.toNat_lt
    rw [decode?_pair (by omega) (by omega) (by omega) (by omega), octet_eq (b := a) (by omega),
      octet_eq (b := b) (by omega)]
  | case4 a b c r n ih =>
    have ha := a.toNat_lt
    have hb := b.toNat_lt
    have hc := c.toNat_lt
    rw [decode?_triple (by omega) (by omega) (by omega) (by omega) ih,
      octet_eq (b := a) (by omega), octet_eq (b := b) (by omega), octet_eq (b := c) (by omega)]

theorem toNat_octet {n : Nat} (h : n < 256) : (UInt8.ofNat n).toNat = n :=
  UInt8.toNat_ofNat_of_lt' h

theorem eq_encode_of_decode? {t : Text} {bs : Bytes} (h : decode? t = some bs) :
    t = encode bs := by
  fun_induction decode? t generalizing bs with
  | case1 =>
    cases h
    rfl
  | case2 p q =>
    simp only [Option.bind_eq_bind, Option.bind_eq_some_iff, Option.ite_none_right_eq_some] at h
    obtain ⟨x, hx, y, hy, hrest, h⟩ := h
    cases h
    obtain ⟨hx, rfl⟩ := of_value? hx
    obtain ⟨hy, rfl⟩ := of_value? hy
    have hn : (x * 64 + y) / 16 * 16 = x * 64 + y := by omega
    rw [encode, toNat_octet (by omega), hn]
    rw [show (x * 64 + y) / 64 = x by omega, show (x * 64 + y) % 64 = y by omega]
  | case3 p q r =>
    simp only [Option.bind_eq_bind, Option.bind_eq_some_iff, Option.ite_none_right_eq_some] at h
    obtain ⟨x, hx, y, hy, z, hz, hrest, h⟩ := h
    cases h
    obtain ⟨hx, rfl⟩ := of_value? hx
    obtain ⟨hy, rfl⟩ := of_value? hy
    obtain ⟨hz, rfl⟩ := of_value? hz
    generalize hn : (x * 64 + y) * 64 + z = n
    have hwhole : (n / 1024 * 256 + n / 4 % 256) * 4 = n := by omega
    rw [encode, toNat_octet (by omega), toNat_octet (by omega), hwhole]
    rw [show n / 4096 = x by omega, show n / 64 % 64 = y by omega, show n % 64 = z by omega]
  | case4 p q r s rest _ _ ih =>
    simp only [Option.bind_eq_bind, Option.bind_eq_some_iff] at h
    obtain ⟨x, hx, y, hy, z, hz, w, hw, tail, htail, h⟩ := h
    cases h
    obtain ⟨hx, rfl⟩ := of_value? hx
    obtain ⟨hy, rfl⟩ := of_value? hy
    obtain ⟨hz, rfl⟩ := of_value? hz
    obtain ⟨hw, rfl⟩ := of_value? hw
    generalize hn : ((x * 64 + y) * 64 + z) * 64 + w = n
    have hwhole : (n / 65536 * 256 + n / 256 % 256) * 256 + n % 256 = n := by omega
    rw [encode, toNat_octet (by omega), toNat_octet (by omega), toNat_octet (by omega), hwhole,
      ← ih htail]
    rw [show n / 262144 = x by omega, show n / 4096 % 64 = y by omega,
      show n / 64 % 64 = z by omega, show n % 64 = w by omega]
  | case5 => cases h

theorem decode?_eq_some_iff {t : Text} {bs : Bytes} : decode? t = some bs ↔ t = encode bs :=
  ⟨eq_encode_of_decode?, fun h => h ▸ decode?_encode bs⟩

/-- There is no blank in an encoding. -/
theorem isBlank_of_mem_encode (bs : Bytes) : ∀ c ∈ encode bs, Text.isBlank c = false := by
  have hpad : Text.isBlank '=' = false := by decide
  have hdigit : ∀ d < 64, Text.isBlank (char d) = false := fun d hd => (char_ne d hd).2
  fun_induction encode bs with
  | case1 => simp
  | case2 a n =>
    have ha := a.toNat_lt
    simp only [List.forall_mem_cons]
    exact ⟨hdigit _ (by omega), hdigit _ (by omega), hpad, hpad, by simp⟩
  | case3 a b n =>
    have ha := a.toNat_lt
    have hb := b.toNat_lt
    simp only [List.forall_mem_cons]
    exact ⟨hdigit _ (by omega), hdigit _ (by omega), hdigit _ (by omega), hpad, by simp⟩
  | case4 a b c r n ih =>
    have ha := a.toNat_lt
    have hb := b.toNat_lt
    have hc := c.toNat_lt
    simp only [List.forall_mem_cons]
    exact ⟨hdigit _ (by omega), hdigit _ (by omega), hdigit _ (by omega), hdigit _ (by omega), ih⟩

end Base64

end SplitDns
