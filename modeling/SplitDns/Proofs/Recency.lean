import Mathlib.Data.Finset.Card
import Mathlib.Data.Finset.Lattice.Fold
import SplitDns.Proofs.CacheEntries

/-!
# What a cache remembers

The history of a cache says what was looked up, stored and cleared, and when.  The invariant
(`Cache.Recalls`) ties the entries to it: each is the last store under its key, the order of the
entries is that of their last use, and an entry that is alive is missing only when as many other
keys as there is room for were used after it.  So the history says what a lookup gives
(`Cache.bounded_by_recency`).
-/

namespace SplitDns

/-- What is done with a cache. -/
inductive CacheUse where
  | get (key : CacheKey)
  | set (key : CacheKey) (answer : Option Message)
  | clear
  deriving DecidableEq, Repr

/-- What was done with a cache; of a lookup also what it gave. -/
inductive CacheDeed where
  | got (key : CacheKey) (result : Lookup)
  | stored (key : CacheKey) (answer : Option Message)
  | cleared
  deriving DecidableEq, Repr

/-- What was done with a cache and when, latest first. -/
abbrev CacheHistory := List (Nat × CacheDeed)

namespace CacheHistory

/-- The last store under a key since the cache was cleared. -/
def lastStored? (k : CacheKey) : CacheHistory → Option (Nat × Option Message)
  | [] => none
  | (_, .got _ _) :: h => lastStored? k h
  | (now, .stored k' answer) :: h => if k' = k then some (now, answer) else lastStored? k h
  | (_, .cleared) :: _ => none

end CacheHistory

/-- The key that was stored or found. -/
def CacheDeed.used? : CacheDeed → Option CacheKey
  | got _ .miss => none
  | got k _ => some k
  | stored k _ => some k
  | cleared => none

namespace CacheHistory

/-- The other keys that were stored or found since a key was, latest first. -/
def usedSince (k : CacheKey) (h : CacheHistory) : List CacheKey :=
  (h.filterMap (·.2.used?)).takeWhile (· != k)

end CacheHistory

namespace Cache

def use (c : Cache) (now : Nat) : CacheUse → CacheDeed × Cache
  | .get k => (.got k (c.get now k).1, (c.get now k).2)
  | .set k answer => (.stored k answer, c.set now k answer)
  | .clear => (.cleared, c.clear)

/-- One use after a history. -/
def useAfter (s : CacheHistory × Cache) (u : Nat × CacheUse) : CacheHistory × Cache :=
  ((u.1, (s.2.use u.1 u.2).1) :: s.1, (s.2.use u.1 u.2).2)

/-- All that is done with a cache that is empty at first. -/
def useAll (settings : CacheSettings) (uses : List (Nat × CacheUse)) : CacheHistory × Cache :=
  uses.foldl useAfter ([], empty settings)

end Cache

/-! ## Lifetimes -/

/-- A number brought between two bounds, which must be in order. -/
def clamp? (low high t : UInt32) : Option UInt32 :=
  if low ≤ high then some (if t < low then low else if high < t then high else t) else none

theorem clamp?_eq_some {low high : UInt32} (h : low ≤ high) (t : UInt32) :
    clamp? low high t = some (max low (min t high)) := by
  have hmax : max low (min t high) = if low ≤ min t high then min t high else low := rfl
  have hmin : min t high = if t ≤ high then t else high := rfl
  rw [clamp?, if_pos h, hmax, hmin]
  grind

theorem Message.exists_minTtl? {m : Message} (h : m.answers ≠ []) :
    ∃ r ∈ m.answers, (∀ r' ∈ m.answers, r.ttl ≤ r'.ttl) ∧ m.minTtl? = some r.ttl := by
  have hne : m.answers.map (·.ttl) ≠ [] := by simpa using h
  have hmin := List.min?_eq_some_min hne
  obtain ⟨hmem, hle⟩ := List.min?_eq_some_iff.1 hmin
  obtain ⟨r, hr, httl⟩ := List.mem_map.1 hmem
  refine ⟨r, hr, fun r' hr' => ?_, hmin.trans (congrArg some httl.symm)⟩
  rw [httl]
  exact hle _ (List.mem_map.2 ⟨r', hr', rfl⟩)

namespace CacheSettings

theorem minTtl_le_maxTtl (s : CacheSettings) : s.minTtl ≤ max s.minTtl s.maxTtl := by
  have hmax : max s.minTtl s.maxTtl = if s.minTtl ≤ s.maxTtl then s.maxTtl else s.minTtl := rfl
  grind

/-- The least TTL of the answers counts, brought between bounds that are in order. -/
theorem ttl_of_answers (s : CacheSettings) {m : Message} (h : m.answers ≠ []) :
    ∃ r ∈ m.answers, (∀ r' ∈ m.answers, r.ttl ≤ r'.ttl) ∧
      clamp? s.minTtl (max s.minTtl s.maxTtl) r.ttl = some (s.ttl (some m)) := by
  obtain ⟨r, hr, hleast, hmin⟩ := Message.exists_minTtl? h
  refine ⟨r, hr, hleast, ?_⟩
  rw [clamp?_eq_some s.minTtl_le_maxTtl, ttl, hmin]
  rfl

theorem ttl_of_no_answers (s : CacheSettings) {m : Message} (h : m.answers = []) :
    s.ttl (some m) = s.minTtl := by
  rw [ttl, Message.minTtl?, h]
  rfl

/-- The entry that a store at a time makes. -/
def entry (s : CacheSettings) (k : CacheKey) (t : Nat) (answer : Option Message) : CacheEntry :=
  ⟨k, answer, t + (s.ttl answer).toNat⟩

end CacheSettings

namespace CacheHistory

variable {h : CacheHistory} {now : Nat} {d : CacheDeed} {k k' : CacheKey}

theorem usedSince_cons_none (hd : d.used? = none) :
    usedSince k ((now, d) :: h) = usedSince k h := by
  rw [usedSince, List.filterMap_cons, hd]
  rfl

theorem usedSince_cons_ne (hd : d.used? = some k') (hk : k' ≠ k) :
    usedSince k ((now, d) :: h) = k' :: usedSince k h := by
  rw [usedSince, List.filterMap_cons, hd]
  exact List.takeWhile_cons_of_pos (by simpa using hk)

theorem not_mem_usedSince (k : CacheKey) (h : CacheHistory) : k ∉ usedSince k h := by
  intro hk
  have hall := List.all_takeWhile (l := h.filterMap (·.2.used?)) (p := (· != k))
  have hne := List.all_eq_true.1 hall k hk
  simp at hne

end CacheHistory

namespace Cache

variable {h : CacheHistory} {now now' : Nat} {c : Cache} {k k' : CacheKey}
  {answer : Option Message} {e x : CacheEntry} {used : List CacheKey} {l : List CacheEntry}

/-! ## The order of entries -/

/-- Only entries under some keys are before an entry in a list. -/
def Behind (used : List CacheKey) (e : CacheEntry) (l : List CacheEntry) : Prop :=
  ∃ newer older, l = newer ++ e :: older ∧ ∀ n ∈ newer, n.key ∈ used

theorem Behind.find? (hb : Behind used e l) (he : e.key ∉ used) :
    l.find? (·.key == e.key) = some e := by
  obtain ⟨newer, older, rfl, hnewer⟩ := hb
  have hnone : newer.find? (·.key == e.key) = none := by
    rw [List.find?_eq_none]
    intro n hn heq
    exact he (eq_of_beq heq ▸ hnewer n hn)
  rw [List.find?_append, hnone, List.find?_cons_of_pos (by simp)]
  rfl

theorem Behind.others (hb : Behind used e c.entries) (hk : e.key ≠ k) :
    Behind used e (c.others k) := by
  obtain ⟨newer, older, hl, hnewer⟩ := hb
  refine ⟨newer.filter (·.key != k), older.filter (·.key != k), ?_,
    fun n hn => hnewer n (List.mem_filter.1 hn).1⟩
  rw [Cache.others, hl, List.filter_append, List.filter_cons_of_pos (by simpa using hk)]

theorem Behind.cons (hb : Behind used e l) : Behind (x.key :: used) e (x :: l) := by
  obtain ⟨newer, older, rfl, hnewer⟩ := hb
  refine ⟨x :: newer, older, rfl, fun n hn => ?_⟩
  rcases List.mem_cons.1 hn with rfl | hn
  · exact List.mem_cons_self ..
  · exact List.mem_cons_of_mem _ (hnewer n hn)

/-- The first entries of a list stay with those that are behind few keys. -/
theorem Behind.take {n : Nat} (hb : Behind used e l) (hl : (l.map (·.key)).Nodup)
    (hn : used.toFinset.card < n) : Behind used e (l.take n) := by
  obtain ⟨newer, older, rfl, hnewer⟩ := hb
  rw [List.map_append] at hl
  have hsub : (newer.map (·.key)).toFinset ⊆ used.toFinset := by
    intro a ha
    obtain ⟨x, hx, rfl⟩ := List.mem_map.1 (List.mem_toFinset.1 ha)
    exact List.mem_toFinset.2 (hnewer x hx)
  have hlen : newer.length ≤ used.toFinset.card := by
    have hcard := Finset.card_le_card hsub
    rwa [List.toFinset_card_of_nodup hl.of_append_left, List.length_map] at hcard
  obtain ⟨m, hm⟩ : ∃ m, n - newer.length = m + 1 := ⟨n - newer.length - 1, by omega⟩
  refine ⟨newer, older.take m, ?_, hnewer⟩
  rw [List.take_append, List.take_of_length_le (by omega), hm, List.take_succ_cons]

theorem nodup_front (hc : (c.entries.map (·.key)).Nodup) (hx : x.key = k) :
    ((x :: c.others k).map (·.key)).Nodup := by
  rw [List.map_cons, List.nodup_cons]
  constructor
  · intro hmem
    obtain ⟨y, hy, hkey⟩ := List.mem_map.1 hmem
    have hne := (List.mem_filter.1 hy).2
    rw [hkey, hx] at hne
    simp at hne
  · exact hc.sublist (List.filter_sublist.map _)

/-! ## Entries and the history -/

/-- What the entries of a cache at a time have to do with its history. -/
structure Recalls (h : CacheHistory) (now : Nat) (c : Cache) : Prop where
  nodup : (c.entries.map (·.key)).Nodup
  size : c.size ≤ c.settings.capacity
  stored : ∀ e ∈ c.entries, ∃ t, h.lastStored? e.key = some (t, e.answer) ∧
    e = c.settings.entry e.key t e.answer
  /-- An entry that is alive is behind none but those used after it, unless it was pushed out. -/
  kept : ∀ k t answer, h.lastStored? k = some (t, answer) →
    now < (c.settings.entry k t answer).expires →
    (h.usedSince k).toFinset.card < c.settings.capacity →
    Behind (h.usedSince k) (c.settings.entry k t answer) c.entries

namespace Recalls

theorem start (settings : CacheSettings) (now : Nat) : Recalls [] now (empty settings) where
  nodup := List.nodup_nil
  size := Nat.zero_le _
  stored := fun e he => by cases he
  kept := fun k t answer hk => by cases hk

theorem later (hc : Recalls h now c) (hle : now ≤ now') : Recalls h now' c :=
  { hc with
    kept := fun k t answer hk hlive => hc.kept k t answer hk (Nat.lt_of_le_of_lt hle hlive) }

/-- What is found under a key is the last store under it. -/
theorem find?_eq (hc : Recalls h now c) {t : Nat} (hk : h.lastStored? k = some (t, answer))
    (hf : c.find? k = some e) : e = c.settings.entry k t answer := by
  obtain ⟨t', ht', he⟩ := hc.stored e (mem_of_find? hf)
  rw [key_of_find? hf] at ht' he
  rw [hk] at ht'
  cases ht'
  exact he

/-- A use that puts an entry in front of the others. -/
theorem front (hc : Recalls h now c) (hle : now ≤ now') {d : CacheDeed} {t : Nat}
    (hd : d.used? = some k)
    (hself : CacheHistory.lastStored? k ((now', d) :: h) = some (t, answer))
    (hother : ∀ k' ≠ k, CacheHistory.lastStored? k' ((now', d) :: h) = h.lastStored? k') :
    Recalls ((now', d) :: h) now'
      { c with
        entries := (c.settings.entry k t answer :: c.others k).take c.settings.capacity } := by
  have hnodup := nodup_front (x := c.settings.entry k t answer) hc.nodup rfl
  refine ⟨hnodup.sublist ((List.take_sublist _ _).map _), List.length_take_le _ _,
    fun e he => ?_, fun k' t' answer' hk' hlive hroom => ?_⟩
  · rcases List.mem_cons.1 (List.mem_of_mem_take he) with rfl | he
    · exact ⟨t, hself, rfl⟩
    · have hne : e.key ≠ k := by simpa using (List.mem_filter.1 he).2
      rw [hother e.key hne]
      exact hc.stored e (mem_of_mem_others he)
  · by_cases hkk : k' = k
    · subst hkk
      rw [hself] at hk'
      cases hk'
      exact Behind.take ⟨[], c.others k', rfl, fun n hn => by cases hn⟩ hnodup hroom
    · rw [hother k' hkk] at hk'
      rw [CacheHistory.usedSince_cons_ne hd (Ne.symm hkk)] at hroom ⊢
      have hless : (h.usedSince k').toFinset.card < c.settings.capacity :=
        Nat.lt_of_le_of_lt (Finset.card_le_card (by simp)) hroom
      have hb := hc.kept k' t' answer' hk' (Nat.lt_of_le_of_lt hle hlive) hless
      exact Behind.take (Behind.cons (x := c.settings.entry k t answer) (hb.others hkk)) hnodup
        hroom

theorem store (hc : Recalls h now c) (hle : now ≤ now') (k : CacheKey) (answer : Option Message) :
    Recalls ((now', .stored k answer) :: h) now' (c.set now' k answer) := by
  refine hc.front hle rfl ?_ fun k' hk' => ?_
  · rw [CacheHistory.lastStored?, if_pos rfl]
  · rw [CacheHistory.lastStored?, if_neg (Ne.symm hk')]

/-- A look-up that finds an entry puts it in front; none is pushed out. -/
theorem found (hc : Recalls h now c) (hle : now ≤ now') (hf : c.find? k = some e) :
    Recalls ((now', .got k (.ofAnswer e.answer)) :: h) now'
      { c with entries := e :: c.others k } := by
  obtain ⟨t, ht, he⟩ := hc.stored e (mem_of_find? hf)
  rw [key_of_find? hf] at ht he
  have hused : CacheDeed.used? (.got k (.ofAnswer e.answer)) = some k := by
    cases e.answer <;> rfl
  have hfront := hc.front hle hused ht fun k' _ => rfl
  have hlen : (e :: c.others k).length ≤ c.settings.capacity :=
    Nat.le_trans (length_others_lt hf) hc.size
  rwa [← he, List.take_of_length_le hlen] at hfront

theorem missed (hc : Recalls h now c) (hle : now ≤ now') (k : CacheKey) :
    Recalls ((now', .got k .miss) :: h) now' c where
  nodup := hc.nodup
  size := hc.size
  stored := hc.stored
  kept := fun k' t answer hk hlive hroom => by
    rw [CacheHistory.usedSince_cons_none rfl] at hroom ⊢
    exact (hc.later hle).kept k' t answer hk hlive hroom

/-- An entry that has expired is removed. -/
theorem expired (hc : Recalls h now c) (hle : now ≤ now') (hf : c.find? k = some e)
    (hdead : e.expires ≤ now') :
    Recalls ((now', .got k .miss) :: h) now' { c with entries := c.others k } := by
  refine ⟨hc.nodup.sublist (List.filter_sublist.map _),
    Nat.le_trans (List.length_filter_le _ _) hc.size,
    fun e he => hc.stored e (mem_of_mem_others he), fun k' t answer hk hlive hroom => ?_⟩
  rw [CacheHistory.usedSince_cons_none rfl] at hroom ⊢
  have hne : k' ≠ k := by
    rintro rfl
    rw [hc.find?_eq hk hf] at hdead
    exact Nat.not_le_of_gt hlive hdead
  exact (hc.kept k' t answer hk (Nat.lt_of_le_of_lt hle hlive) hroom).others hne

theorem get (hc : Recalls h now c) (hle : now ≤ now') (k : CacheKey) :
    Recalls ((now', .got k (c.get now' k).1) :: h) now' (c.get now' k).2 := by
  unfold Cache.get
  cases hf : c.find? k with
  | none => exact hc.missed hle k
  | some e =>
    simp only
    split
    next hlive => exact hc.found hle hf
    next hdead => exact hc.expired hle hf (Nat.not_lt.1 hdead)

theorem clear (h : CacheHistory) (now : Nat) (c : Cache) :
    Recalls ((now, .cleared) :: h) now c.clear where
  nodup := List.nodup_nil
  size := Nat.zero_le _
  stored := fun e he => by cases he
  kept := fun k t answer hk => by cases hk

/-- One use keeps the tie between entries and history. -/
theorem use (hc : Recalls h now c) (hle : now ≤ now') (u : CacheUse) :
    Recalls ((now', (c.use now' u).1) :: h) now' (c.use now' u).2 := by
  cases u with
  | get k => exact hc.get hle k
  | set k answer => exact hc.store hle k answer
  | clear => exact clear h now' c

/-- Any number of uses keep it. -/
theorem uses {uses : List (Nat × CacheUse)} (hc : Recalls h now c) (hle : now ≤ now')
    (hclock : uses.Pairwise fun u v => u.1 ≤ v.1) (hfrom : ∀ u ∈ uses, now ≤ u.1)
    (hto : ∀ u ∈ uses, u.1 ≤ now') :
    Recalls (uses.foldl useAfter (h, c)).1 now' (uses.foldl useAfter (h, c)).2 := by
  induction uses generalizing h now c with
  | nil => exact hc.later hle
  | cons u uses ih =>
    obtain ⟨hu, hclock⟩ := List.pairwise_cons.1 hclock
    exact ih (hc.use (hfrom u (by simp)) u.2) (hto u (by simp)) hclock hu
      fun v hv => hto v (by simp [hv])

/-- The entry of a key that few other keys were used after is found as long as it is alive. -/
theorem find?_of_room (hc : Recalls h now c) {t : Nat} (hk : h.lastStored? k = some (t, answer))
    (hlive : now < t + (c.settings.ttl answer).toNat)
    (hroom : (h.usedSince k).toFinset.card < c.settings.capacity) :
    c.find? k = some (c.settings.entry k t answer) :=
  (hc.kept k t answer hk hlive hroom).find? (CacheHistory.not_mem_usedSince k h)

end Recalls

theorem settings_use (c : Cache) (now : Nat) (u : CacheUse) :
    (c.use now u).2.settings = c.settings := by
  cases u with
  | get k => exact settings_get c now k
  | set k answer => rfl
  | clear => rfl

theorem settings_useAll (settings : CacheSettings) (uses : List (Nat × CacheUse)) :
    (useAll settings uses).2.settings = settings := by
  have hfold : ∀ s : CacheHistory × Cache,
      (uses.foldl useAfter s).2.settings = s.2.settings := by
    induction uses with
    | nil => exact fun s => rfl
    | cons u uses ih => exact fun s => (ih _).trans (settings_use s.2 u.1 u.2)
  exact hfold ([], empty settings)

/-- After any uses with a clock that does not run backwards, a cache holds one entry for each of so
many keys as its settings allow.  A lookup gives what was stored last under its key, if that is
still alive, and gives it for sure when fewer other keys than there is room for were used since. -/
theorem bounded_by_recency (settings : CacheSettings) (uses : List (Nat × CacheUse))
    (hclock : uses.Pairwise fun u v => u.1 ≤ v.1) :
    let h := (useAll settings uses).1
    let c := (useAll settings uses).2
    (c.entries.map (·.key)).Nodup ∧ c.size ≤ max settings.size 1 ∧
    (∀ now k, (∀ u ∈ uses, u.1 ≤ now) →
      (∀ answer, (c.get now k).1 = .ofAnswer answer →
        ∃ t, h.lastStored? k = some (t, answer) ∧ now < t + (settings.ttl answer).toNat) ∧
      (∀ t answer, h.lastStored? k = some (t, answer) → now < t + (settings.ttl answer).toNat →
        (h.usedSince k).toFinset.card < max settings.size 1 →
        (c.get now k).1 = .ofAnswer answer)) ∧
    settings.ttl none = settings.negativeTtl ∧
    (∀ m, m.answers = [] → settings.ttl (some m) = settings.minTtl) ∧
    ∀ m, m.answers ≠ [] → ∃ r ∈ m.answers, (∀ r' ∈ m.answers, r.ttl ≤ r'.ttl) ∧
      clamp? settings.minTtl (max settings.minTtl settings.maxTtl) r.ttl =
        some (settings.ttl (some m)) := by
  intro h c
  have hrecalls : ∀ now, (∀ u ∈ uses, u.1 ≤ now) → Recalls h now c := fun now hto =>
    (Recalls.start settings 0).uses (Nat.zero_le _) hclock (fun _ _ => Nat.zero_le _) hto
  have hsettings : c.settings = settings := settings_useAll settings uses
  have hlast : ∀ u ∈ uses, u.1 ≤ uses.toFinset.sup (·.1) := fun u hu =>
    Finset.le_sup (f := (·.1)) (List.mem_toFinset.2 hu)
  refine ⟨(hrecalls _ hlast).nodup, ?_, fun now k hto => ⟨fun answer hget => ?_,
    fun t answer hk hlive hroom => ?_⟩, rfl, fun m => settings.ttl_of_no_answers,
    fun m => settings.ttl_of_answers⟩
  · have hsize := (hrecalls _ hlast).size
    rwa [hsettings] at hsize
  · obtain ⟨e, hf, hlive, rfl⟩ := get_eq_ofAnswer_iff.1 hget
    obtain ⟨t, ht, he⟩ := (hrecalls now hto).stored e (mem_of_find? hf)
    rw [key_of_find? hf] at ht
    rw [he, hsettings] at hlive
    exact ⟨t, ht, hlive⟩
  · rw [← hsettings] at hlive
    have hf := (hrecalls now hto).find?_of_room hk hlive (by rwa [hsettings])
    exact get_eq_ofAnswer_iff.2 ⟨_, hf, hlive, rfl⟩

/-- A cache for two entries whose bounds are the wrong way round: the key that was found again stays
when a third one is stored, and the other one goes. -/
theorem bounded_by_recency_third_key :
    let settings : CacheSettings := ⟨2, 60, 30, 10⟩
    let a : CacheKey := ⟨['a'], 1, 1, []⟩
    let b : CacheKey := ⟨['b'], 1, 1, []⟩
    let d : CacheKey := ⟨['d'], 1, 1, []⟩
    let answer : Message := Message.bare (Header.blank 1 true 0)
    let uses : List (Nat × CacheUse) :=
      [(0, .set a (some answer)), (1, .set b none), (2, .get a), (3, .set d none)]
    let c := (useAll settings uses).2
    uses.Pairwise (fun u v => u.1 ≤ v.1) ∧ c.size ≤ 2 ∧ (c.get 59 a).1 = .hit answer ∧
      (c.get 4 b).1 = .miss := by
  intro settings a b d answer uses c
  have hclock : uses.Pairwise (fun u v => u.1 ≤ v.1) := by decide
  obtain ⟨-, hsize, hget, -⟩ := bounded_by_recency settings uses hclock
  have hfound := (hget 59 a (by decide)).2 0 (some answer) (by decide) (by decide) (by decide)
  exact ⟨hclock, hsize, hfound, by decide⟩

/-! ## Room for all keys -/

/-- A cache that has room for all of some keys and holds entries under different ones of them. -/
structure FitsIn (keys : List CacheKey) (c : Cache) : Prop where
  nodup : (c.entries.map (·.key)).Nodup
  among : ∀ e ∈ c.entries, e.key ∈ keys
  room : keys.length ≤ c.settings.capacity

/-- Whether the entries of a cache are alive at a time. -/
def AliveAt (now : Nat) (c : Cache) : Prop :=
  ∀ e ∈ c.entries, now < e.expires

variable {keys : List CacheKey}

theorem FitsIn.get (hc : c.FitsIn keys) (now : Nat) (k : CacheKey) :
    (c.get now k).2.FitsIn keys := by
  refine ⟨?_, fun e he => hc.among e (mem_of_mem_get he), ?_⟩
  · unfold Cache.get
    cases hf : c.find? k with
    | none => exact hc.nodup
    | some e =>
      simp only
      split
      · exact nodup_front hc.nodup (key_of_find? hf)
      · exact hc.nodup.sublist (List.filter_sublist.map _)
  · have hsettings : (c.use now (.get k)).2.settings = c.settings := settings_use c now (.get k)
    exact Nat.le_trans hc.room (Nat.le_of_eq (congrArg CacheSettings.capacity hsettings.symm))

/-- What is stored under one of the keys pushes no entry out. -/
theorem FitsIn.entries_set (hc : c.FitsIn keys) (hk : k ∈ keys) (now : Nat)
    (answer : Option Message) :
    (c.set now k answer).entries = c.settings.entry k now answer :: c.others k := by
  have hnodup := nodup_front (k := k) (x := c.settings.entry k now answer) hc.nodup rfl
  have hsub : ((c.settings.entry k now answer :: c.others k).map (·.key)).toFinset ⊆
      keys.toFinset := by
    intro a ha
    obtain ⟨x, hx, rfl⟩ := List.mem_map.1 (List.mem_toFinset.1 ha)
    rcases List.mem_cons.1 hx with rfl | hx
    · exact List.mem_toFinset.2 hk
    · exact List.mem_toFinset.2 (hc.among x (mem_of_mem_others hx))
  refine List.take_of_length_le ?_
  calc (c.settings.entry k now answer :: c.others k).length
      = ((c.settings.entry k now answer :: c.others k).map (·.key)).toFinset.card := by
        rw [List.toFinset_card_of_nodup hnodup, List.length_map]
    _ ≤ keys.toFinset.card := Finset.card_le_card hsub
    _ ≤ keys.length := List.toFinset_card_le keys
    _ ≤ c.settings.capacity := hc.room

theorem FitsIn.set (hc : c.FitsIn keys) (hk : k ∈ keys) (now : Nat) (answer : Option Message) :
    (c.set now k answer).FitsIn keys := by
  refine ⟨?_, fun e he => ?_, hc.room⟩
  · rw [hc.entries_set hk]
    exact nodup_front hc.nodup rfl
  · rw [hc.entries_set hk] at he
    rcases List.mem_cons.1 he with rfl | he
    · exact hk
    · exact hc.among e (mem_of_mem_others he)

theorem FitsIn.find?_set_ne (hc : c.FitsIn keys) (hk : k ∈ keys) (hne : k' ≠ k) (now : Nat)
    (answer : Option Message) : (c.set now k answer).find? k' = c.find? k' := by
  have hother : ¬ (k == k') = true := by simpa using hne.symm
  calc (c.set now k answer).find? k'
      = (c.settings.entry k now answer :: c.others k).find? (·.key == k') := by
        rw [find?, hc.entries_set hk]
    _ = (c.others k).find? (·.key == k') := List.find?_cons_of_neg hother
    _ = c.find? k' := find?_others_ne c hne

/-- A lookup in a cache whose entries are all alive leaves what can be found. -/
theorem AliveAt.find?_get (hc : c.AliveAt now) (k k' : CacheKey) :
    (c.get now k).2.find? k' = c.find? k' := by
  cases hf : c.find? k' with
  | some e => exact (Cache.find?_get k k' (hc e (mem_of_find? hf))).2 hf
  | none =>
    refine Option.eq_none_iff_forall_ne_some.2 fun e he => ?_
    rw [find?_of_find?_get he] at hf
    cases hf

theorem AliveAt.find?_of_miss (hc : c.AliveAt now) (hmiss : (c.get now k).1 = .miss) :
    c.find? k = none := by
  cases hf : c.find? k with
  | none => rfl
  | some e =>
    rw [get_of_live hf (hc e (mem_of_find? hf))] at hmiss
    cases ha : e.answer <;> rw [ha] at hmiss <;> cases hmiss

end Cache

end SplitDns
