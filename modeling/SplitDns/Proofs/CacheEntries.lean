import SplitDns.Cache.Basic

/-!
# Entries of the cache

What a lookup and a store do to the entries of a cache: a lookup changes no entry that is alive
(`Cache.find?_get`) and brings no entry in (`Cache.mem_of_mem_get`), and what stands in a cache
after a store stood there before or is what was stored (`Cache.mem_of_mem_set`).  What is stored is
found (`Cache.find?_set_self`), and only a store under its key puts something else in its place
(`Cache.find?_of_find?_get`, `Cache.find?_of_find?_set_ne`).  A store under another key removes an
entry only from a full cache, and then the one that was used least recently
(`Cache.pushesOut_of_find?_set`).
-/

namespace SplitDns.Cache

theorem key_of_find? {c : Cache} {k : CacheKey} {e : CacheEntry} (h : c.find? k = some e) :
    e.key = k := by
  have hk := List.find?_some h
  exact eq_of_beq hk

theorem mem_of_find? {c : Cache} {k : CacheKey} {e : CacheEntry} (h : c.find? k = some e) :
    e ∈ c.entries :=
  List.mem_of_find?_eq_some h

theorem mem_of_mem_others {c : Cache} {k : CacheKey} {e : CacheEntry} (h : e ∈ c.others k) :
    e ∈ c.entries :=
  (List.mem_filter.1 h).1

theorem find?_others_self (c : Cache) (k : CacheKey) :
    (c.others k).find? (·.key == k) = none := by
  rw [List.find?_eq_none]
  intro e he
  have := (List.mem_filter.1 he).2
  simpa using this

theorem find?_others_ne (c : Cache) {k k' : CacheKey} (h : k' ≠ k) :
    (c.others k).find? (·.key == k') = c.find? k' := by
  unfold others find?
  rw [List.find?_filter]
  congr
  funext e
  by_cases he : e.key = k'
  · simp [he, h]
  · simp [he]

/-! ## Lookups -/

/-- A lookup gives something exactly when it finds an entry that is alive. -/
theorem get_eq_ofAnswer_iff {c : Cache} {now : Nat} {k : CacheKey} {answer : Option Message} :
    (c.get now k).1 = .ofAnswer answer ↔
      ∃ e, c.find? k = some e ∧ now < e.expires ∧ e.answer = answer := by
  have hinj : ∀ a b : Option Message, Lookup.ofAnswer a = .ofAnswer b → a = b := by
    intro a b h
    cases a <;> cases b <;> cases h <;> rfl
  have hmiss : ∀ a : Option Message, Lookup.miss ≠ .ofAnswer a := by
    intro a h
    cases a <;> cases h
  unfold get
  cases hf : c.find? k with
  | none => simp [hmiss]
  | some e =>
    simp only [Option.some.injEq, exists_eq_left']
    split
    next hlive => exact ⟨fun h => ⟨hlive, hinj _ _ h⟩, fun h => congrArg Lookup.ofAnswer h.2⟩
    next hdead => exact ⟨fun h => absurd h (hmiss _), fun h => absurd h.1 hdead⟩

/-- A lookup finds an entry that is alive, or it finds nothing. -/
theorem find?_of_get_eq_hit {c : Cache} {now : Nat} {k : CacheKey} {m : Message}
    (h : (c.get now k).1 = .hit m) :
    ∃ e, c.find? k = some e ∧ now < e.expires ∧ e.answer = some m :=
  get_eq_ofAnswer_iff.1 h

theorem get_eq_hit {c : Cache} {now : Nat} {k : CacheKey} {m : Message}
    (h : (c.get now k).1 = .hit m) : ∃ e ∈ c.entries, e.key = k ∧ e.answer = some m := by
  obtain ⟨e, hf, -, ha⟩ := find?_of_get_eq_hit h
  exact ⟨e, mem_of_find? hf, key_of_find? hf, ha⟩

theorem get_of_live {c : Cache} {now : Nat} {k : CacheKey} {e : CacheEntry}
    (hf : c.find? k = some e) (hlive : now < e.expires) :
    (c.get now k).1 = .ofAnswer e.answer :=
  get_eq_ofAnswer_iff.2 ⟨e, hf, hlive, rfl⟩

theorem mem_of_mem_get {c : Cache} {now : Nat} {k : CacheKey} {e : CacheEntry}
    (h : e ∈ (c.get now k).2.entries) : e ∈ c.entries := by
  unfold get at h
  cases hf : c.find? k with
  | none => rwa [hf] at h
  | some e' =>
    rw [hf] at h
    simp only at h
    split at h
    · rcases List.mem_cons.1 h with rfl | h
      · exact mem_of_find? hf
      · exact mem_of_mem_others h
    · exact mem_of_mem_others h

/-- What is found after a lookup was found before it. -/
theorem find?_of_find?_get {c : Cache} {now : Nat} {k k' : CacheKey} {e : CacheEntry}
    (h : (c.get now k).2.find? k' = some e) : c.find? k' = some e := by
  unfold get at h
  cases hf : c.find? k with
  | none => rwa [hf] at h
  | some e' =>
    have hkey := key_of_find? hf
    rw [hf] at h
    simp only at h
    by_cases hk : k' = k
    · subst hk
      split at h
      · rw [find?, List.find?_cons_of_pos (by simpa using hkey)] at h
        rwa [hf]
      · rw [find?, find?_others_self] at h
        cases h
    · have hne : (e'.key == k') = false := by
        rw [hkey]
        exact beq_false_of_ne (Ne.symm hk)
      split at h
      · rwa [find?, List.find?_cons_of_neg (by simpa using hne), find?_others_ne c hk] at h
      · rwa [find?, find?_others_ne c hk] at h

/-- A lookup leaves every entry that is alive where it can be found. -/
theorem find?_get {c : Cache} {now : Nat} (k k' : CacheKey) {e : CacheEntry}
    (h : now < e.expires) : (c.get now k).2.find? k' = some e ↔ c.find? k' = some e := by
  refine ⟨find?_of_find?_get, fun hf' => ?_⟩
  unfold get
  cases hf : c.find? k with
  | none => exact hf'
  | some e' =>
    have hkey := key_of_find? hf
    simp only
    by_cases hk : k' = k
    · subst hk
      rw [hf'] at hf
      cases hf
      rw [if_pos h, find?, List.find?_cons_of_pos (by simpa using hkey)]
    · have hne : (e'.key == k') = false := by
        rw [hkey]
        exact beq_false_of_ne (Ne.symm hk)
      split
      · simp [find?, hne, find?_others_ne c hk, ← hf']
      · rw [find?, find?_others_ne c hk, hf']

/-- A lookup depends on what can be found under its key, and so does what it leaves there. -/
theorem get_congr {c c' : Cache} {k : CacheKey} (h : c.find? k = c'.find? k) (now : Nat) :
    (c.get now k).1 = (c'.get now k).1 ∧ (c.get now k).2.find? k = (c'.get now k).2.find? k := by
  unfold get
  rw [← h]
  cases hf : c.find? k with
  | none => exact ⟨rfl, h⟩
  | some e =>
    have hfront : ∀ l : List CacheEntry, (e :: l).find? (·.key == k) = some e := fun l =>
      List.find?_cons_of_pos (by simpa using key_of_find? hf)
    simp only
    split
    · exact ⟨rfl, (hfront _).trans (hfront _).symm⟩
    · exact ⟨rfl, (find?_others_self c k).trans (find?_others_self c' k).symm⟩

/-! ## Stores -/

/-- What is stored is found: there is room for one entry at least. -/
theorem find?_set_self (c : Cache) (now : Nat) (k : CacheKey) (answer : Option Message) :
    (c.set now k answer).find? k =
      some ⟨k, answer, now + (c.settings.ttl answer).toNat⟩ := by
  obtain ⟨n, hn⟩ : ∃ n, c.settings.capacity = n + 1 :=
    Nat.exists_eq_succ_of_ne_zero (by unfold CacheSettings.capacity; omega)
  rw [set, find?, hn, List.take_succ_cons, List.find?_cons_of_pos (by simp)]

/-- A store under another key brings nothing in; it may push an entry out. -/
theorem find?_of_find?_set_ne {c : Cache} {now : Nat} {k k' : CacheKey}
    {answer : Option Message} {e : CacheEntry} (hk : k' ≠ k)
    (h : (c.set now k answer).find? k' = some e) : c.find? k' = some e := by
  have h := (List.take_prefix _ _).find?_eq_some h
  rw [List.find?_cons_of_neg (by simpa using Ne.symm hk), find?_others_ne c hk] at h
  exact h

theorem mem_of_mem_set {c : Cache} {now : Nat} {k : CacheKey} {answer : Option Message}
    {e : CacheEntry} (h : e ∈ (c.set now k answer).entries) :
    e.key = k ∧ e.answer = answer ∨ e ∈ c.entries := by
  rcases List.mem_cons.1 (List.mem_of_mem_take h) with rfl | h
  · exact .inl ⟨rfl, rfl⟩
  · exact .inr (mem_of_mem_others h)

/-! ## Room -/

/-- Whether a store under a key has to push an entry out: the key is new, the cache is full, and the
entry is the one that was used least recently. -/
structure PushesOut (c : Cache) (k : CacheKey) (e : CacheEntry) : Prop where
  full : c.size = c.settings.capacity
  absent : c.find? k = none
  last : c.entries.getLast? = some e

theorem size_set_le (c : Cache) (now : Nat) (k : CacheKey) (answer : Option Message) :
    (c.set now k answer).size ≤ c.settings.capacity :=
  List.length_take_le _ _

theorem length_others_lt {c : Cache} {k : CacheKey} {e : CacheEntry} (h : c.find? k = some e) :
    (c.others k).length < c.size :=
  List.length_filter_lt_length_iff_exists.2 ⟨e, mem_of_find? h, by simp [key_of_find? h]⟩

theorem size_get_le (c : Cache) (now : Nat) (k : CacheKey) : (c.get now k).2.size ≤ c.size := by
  unfold get
  cases hf : c.find? k with
  | none => exact Nat.le_refl _
  | some e =>
    have hlt := length_others_lt hf
    simp only
    split
    · exact hlt
    · exact Nat.le_of_lt hlt

theorem settings_get (c : Cache) (now : Nat) (k : CacheKey) :
    (c.get now k).2.settings = c.settings := by
  unfold get
  split
  · rfl
  · split <;> rfl

/-- What a store under another key removes it has to push out. -/
theorem pushesOut_of_find?_set {c : Cache} {now : Nat} {k k' : CacheKey} {answer : Option Message}
    {e : CacheEntry} (hsize : c.size ≤ c.settings.capacity) (hk : k' ≠ k)
    (hf : c.find? k' = some e) (hnone : (c.set now k answer).find? k' = none) :
    c.PushesOut k e := by
  have hother : (c.others k).find? (·.key == k') = some e := by
    rw [find?_others_ne c hk, hf]
  rw [set, find?] at hnone
  -- The entry is lost only when all other ones are kept and leave no room for one more.
  have hlen : c.settings.capacity ≤ (c.others k).length := by
    refine Nat.not_lt.1 fun hlt => ?_
    rw [List.take_of_length_le hlt, List.find?_cons_of_neg (by simpa using Ne.symm hk),
      hother] at hnone
    cases hnone
  have hsame : c.others k = c.entries := by
    refine List.filter_eq_self.2 (List.length_filter_eq_length_iff.1 ?_)
    exact Nat.le_antisymm (List.length_filter_le _ _) (Nat.le_trans hsize hlen)
  have hfull : c.size = c.settings.capacity :=
    Nat.le_antisymm hsize (by rwa [hsame] at hlen)
  refine ⟨hfull, ?_, ?_⟩
  · rw [find?, ← hsame]
    exact find?_others_self c k
  · rw [hsame] at hother hnone
    obtain ⟨before, last, hlast⟩ : ∃ before last, c.entries = before ++ [last] := by
      obtain hnil | ⟨before, last, hlast⟩ := List.eq_nil_or_concat c.entries
      · rw [hnil] at hother
        cases hother
      · exact ⟨before, last, hlast.trans List.concat_eq_append⟩
    have htake : ∀ x : CacheEntry, (x :: c.entries).take c.settings.capacity = x :: before := by
      intro x
      rw [← hfull, size, hlast, List.length_append, List.length_singleton, List.take_succ_cons,
        List.take_left]
    rw [htake, List.find?_cons_of_neg (by simpa using Ne.symm hk)] at hnone
    rw [hlast, List.find?_append, hnone, Option.none_or] at hother
    rw [hlast, List.getLast?_concat, ← List.mem_singleton.1 (List.mem_of_find?_eq_some hother)]

end SplitDns.Cache
