import SplitDns.Proofs.TextCodecs
import SplitDns.Rule.List

/-!
# Rule lists from files

A base64 file gives the list that its plain text gives, wherever blanks were put into it
(`Text.Spaced`), and it gives a list only if it is the padded encoding of a text but for its blanks
(`RuleList.loads_as_plain_text`).
-/

namespace SplitDns

/-! ## Blanks -/

/-- The second text is the first one with blanks put in, at any places. -/
inductive Text.Spaced : Text → Text → Prop
  | nil : Spaced [] []
  | keep {s t : Text} (c : Char) (h : Spaced s t) : Spaced (c :: s) (c :: t)
  | blank {s t : Text} {b : Char} (hb : isBlank b = true) (h : Spaced s t) : Spaced s (b :: t)

/-- A text without blanks is what is left of it when the blanks are taken out again. -/
theorem Text.spaced_iff {s t : Text} (hs : ∀ c ∈ s, isBlank c = false) :
    Spaced s t ↔ t.filter (!isBlank ·) = s := by
  constructor
  · intro h
    induction h with
    | nil => rfl
    | keep c h ih =>
      obtain ⟨hc, hs⟩ := List.forall_mem_cons.1 hs
      rw [List.filter_cons_of_pos (by simp [hc]), ih hs]
    | blank hb h ih => rw [List.filter_cons_of_neg (by simp [hb]), ih hs]
  · rintro rfl
    clear hs
    induction t with
    | nil => exact .nil
    | cons c t ih =>
      by_cases hc : isBlank c = true
      · rw [List.filter_cons_of_neg (by simp [hc])]
        exact .blank hc ih
      · rw [List.filter_cons_of_pos (by simp [hc])]
        exact .keep c ih

/-! ## Files -/

/-- The file at a path is a text in UTF-8. -/
def Files.Holds (files : Files) (path t : Text) : Prop :=
  files path = some (Utf8.encode t)

/-- Files of which each is this text. -/
def Files.only (t : Text) : Files :=
  fun _ => some (Utf8.encode t)

theorem Files.holds_only (path t : Text) : (only t).Holds path t :=
  rfl

theorem Files.Holds.readText {files : Files} {path t : Text} (h : files.Holds path t) :
    files.readText path = .ok t := by
  rw [Files.readText, show files path = _ from h]
  simp only [Utf8.decode?_encode]

namespace RuleList

theorem base64Text?_eq_some_iff {raw t : Text} :
    base64Text? raw = some t ↔ raw.filter (!Text.isBlank ·) = Base64.encode (Utf8.encode t) := by
  rw [base64Text?, Option.bind_eq_some_iff]
  simp only [Base64.decode?_eq_some_iff, Utf8.decode?_eq_some_iff]
  constructor
  · rintro ⟨_, h, rfl⟩
    exact h
  · exact fun h => ⟨_, h, rfl⟩

variable {files : Files} {path raw : Text}

theorem load_plain (h : files.Holds path raw) : load files path false = .ok (ofText raw) := by
  rw [load, h.readText]
  rfl

theorem load_base64 (h : files.Holds path raw) : load files path true =
    match base64Text? raw with
    | some t => .ok (ofText t)
    | none => .error (.config s!"Rule list {String.ofList path} is not valid base64") := by
  rw [load, h.readText]
  rfl

/-- A file is loaded as base64 when, its blanks apart, it is the encoding of a text, and then it
gives the list that a plain file of this text gives; otherwise the settings are at fault. -/
theorem loads_as_plain_text (h : files.Holds path raw) :
    (∀ t, Text.Spaced (Base64.encode (Utf8.encode t)) raw →
      ∀ (plainFiles : Files) (plainPath : Text), plainFiles.Holds plainPath t →
        ∃ list, load files path true = .ok list ∧ load plainFiles plainPath false = .ok list) ∧
    ((∃ list, load files path true = .ok list) ↔
      ∃ t, raw.filter (!Text.isBlank ·) = Base64.encode (Utf8.encode t)) ∧
    ((¬ ∃ t, raw.filter (!Text.isBlank ·) = Base64.encode (Utf8.encode t)) →
      ∃ detail, load files path true = .error (.config detail)) := by
  simp only [← base64Text?_eq_some_iff, load_base64 h]
  refine ⟨fun t ht plainFiles plainPath hplain => ?_, ?_, ?_⟩
  · have htext : base64Text? raw = some t := base64Text?_eq_some_iff.2
      ((Text.spaced_iff (Base64.isBlank_of_mem_encode _)).1 ht)
    exact ⟨ofText t, by rw [htext], load_plain hplain⟩
  · cases base64Text? raw <;> simp
  · intro hnone
    cases htext : base64Text? raw with
    | none => exact ⟨_, rfl⟩
    | some t => exact absurd ⟨t, htext⟩ hnone

/-- The rule `||a.b` in base64 on two lines, and its digits with a bit set that no octet has. -/
theorem loads_as_plain_text_lines :
    (Files.only "fHxh\r\nLmI=\n".toList).Holds [] "fHxh\r\nLmI=\n".toList ∧
      (Files.only "||a.b".toList).Holds [] "||a.b".toList ∧
      Text.Spaced (Base64.encode (Utf8.encode "||a.b".toList)) "fHxh\r\nLmI=\n".toList ∧
      (∃ list, load (.only "fHxh\r\nLmI=\n".toList) [] true = .ok list ∧
        load (.only "||a.b".toList) [] false = .ok list) ∧
      ∃ detail, load (.only "fHxhLmJ=".toList) [] true = .error (.config detail) := by
  have hspaced : Text.Spaced (Base64.encode (Utf8.encode "||a.b".toList))
      "fHxh\r\nLmI=\n".toList :=
    (Text.spaced_iff (Base64.isBlank_of_mem_encode _)).2 (by decide)
  have hbits : ¬ ∃ t, "fHxhLmJ=".toList.filter (!Text.isBlank ·) =
      Base64.encode (Utf8.encode t) := by
    rintro ⟨t, ht⟩
    have hnone : Base64.decode? "fHxhLmJ=".toList = none := by decide
    have hsome := Base64.decode?_eq_some_iff.2 ht
    rw [show "fHxhLmJ=".toList.filter (!Text.isBlank ·) = "fHxhLmJ=".toList by decide, hnone]
      at hsome
    cases hsome
  exact ⟨rfl, rfl, hspaced,
    (loads_as_plain_text (Files.holds_only _ _)).1 _ hspaced _ _ (Files.holds_only _ _),
    (loads_as_plain_text (Files.holds_only _ _)).2.2 hbits⟩

end RuleList

end SplitDns
