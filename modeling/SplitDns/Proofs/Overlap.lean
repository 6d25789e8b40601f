import SplitDns.Proofs.Interleaving

/-!
# Requests that overlap

A store always takes the place of what the cache holds.  A history says which request did what; it
shows that an entry that is alive is replaced only by a request that had looked the key up in vain
before the entry was stored (`System.Moves.recorded`), and that without such a request the entry
stays until it expires or is pushed out (`System.Settled.moves`).  A failure can take the place of
an answer that way.
-/

namespace SplitDns

variable {σ : Type}

/-- A request looked a key up in vain and has stored nothing under it yet. -/
def Task.IsOut (t : Task σ) (k : CacheKey) : Prop :=
  .lookedUp k .miss ∈ t.trail ∧ ∀ answer, .stored k answer ∉ t.trail

theorem Task.IsOut.of_next {t : Task σ} {run : Run σ} {ev : Event σ} {k : CacheKey}
    (ho : (t.next run ev).IsOut k) (hne : ev ≠ .lookedUp k .miss) : t.IsOut k := by
  refine ⟨?_, fun answer hmem => ho.2 answer (List.mem_append_left _ hmem)⟩
  rcases List.mem_append.1 ho.1 with hmem | hmem
  · exact hmem
  · exact absurd (List.mem_singleton.1 hmem).symm hne

/-- The requests by number, in order of arrival, and what each did, earliest first. -/
abbrev History (σ : Type) := List (Nat × Event σ)

namespace World

theorem now_after (env : Surroundings σ) (w : World σ) (ev : Event σ) :
    (w.after env ev).now = w.now := by
  cases ev <;> rfl

theorem size_after_le (env : Surroundings σ) {w : World σ} (ev : Event σ)
    (h : w.cache.size ≤ w.cache.settings.capacity) :
    (w.after env ev).cache.size ≤ w.cache.settings.capacity := by
  cases ev with
  | lookedUp key result => exact Nat.le_trans (Cache.size_get_le w.cache w.now key) h
  | stored key answer => exact Cache.size_set_le w.cache w.now key answer
  | _ => exact h

/-- An entry that is alive is removed by nothing but a store that has to push it out. -/
theorem pushesOut_of_find?_after {env : Surroundings σ} {w : World σ} {ev : Event σ}
    {k : CacheKey} {e : CacheEntry} (hsize : w.cache.size ≤ w.cache.settings.capacity)
    (hf : w.cache.find? k = some e) (hlive : w.now < e.expires)
    (hnone : (w.after env ev).cache.find? k = none) :
    ∃ k' answer, ev = .stored k' answer ∧ k' ≠ k ∧ w.cache.PushesOut k' e := by
  have hgone : ∀ {x : Option CacheEntry}, x = some e → x ≠ none := by
    rintro _ rfl
    nofun
  cases ev with
  | lookedUp key result => exact absurd hnone (hgone ((Cache.find?_get key k hlive).2 hf))
  | stored key answer =>
    by_cases hk : k = key
    · subst hk
      have hself := Cache.find?_set_self w.cache w.now k answer
      rw [show (w.after env (.stored k answer)).cache.find? k = _ from hself] at hnone
      cases hnone
    · exact ⟨key, answer, rfl, Ne.symm hk, Cache.pushesOut_of_find?_set hsize hk hf hnone⟩
  | _ => exact absurd hnone (hgone hf)

end World

namespace System

/-! ## Histories -/

/-- A request takes its next action, which it notes. -/
inductive Acts : System σ → Nat → Event σ → System σ → Prop
  | intro {w w' : World σ} {tasks : List (Task σ)} {i : Nat} {t : Task σ} {run : Run σ}
      {e : Event σ} (env : Surroundings σ) (ht : tasks[i]? = some t)
      (hs : t.left.step env w = some (run, w')) (he : w'.events = w.events ++ [e]) :
      Acts ⟨w, tasks⟩ i e ⟨w', tasks.set i (t.next run e)⟩

/-- Any requests arrive, time passes, and requests act, in any order. -/
inductive Moves (r : Resolver σ) : System σ → History σ → System σ → Prop
  | refl (s : System σ) : Moves r s [] s
  | arrive {s : System σ} {h : History σ} {w : World σ} {tasks : List (Task σ)}
      (hm : Moves r s h ⟨w, tasks⟩) (id : UInt16) (request : Message) :
      Moves r s h ⟨w, tasks ++ [⟨request, id, r.run id request, []⟩]⟩
  | wait {s : System σ} {h : History σ} {w : World σ} {tasks : List (Task σ)}
      (hm : Moves r s h ⟨w, tasks⟩) (seconds : Nat) :
      Moves r s h ⟨{ w with now := w.now + seconds }, tasks⟩
  | act {s s' s'' : System σ} {h : History σ} {i : Nat} {e : Event σ} (hm : Moves r s h s')
      (ha : Acts s' i e s'') : Moves r s (h ++ [(i, e)]) s''

/-- An empty cache and no requests. -/
def start (settings : CacheSettings) (now : Nat) (sets : List (Text × MemorySet)) : System σ :=
  ⟨⟨Cache.empty settings, now, sets, []⟩, []⟩

variable {r : Resolver σ} {s s' : System σ} {h : History σ} {k : CacheKey} {e : CacheEntry}

theorem Acts.notes {i : Nat} {ev : Event σ} (ha : Acts s i ev s') :
    ∃ env t run, s.tasks[i]? = some t ∧ Run.Notes t.left ev run ∧ ev.Observed env s.world ∧
      s' = ⟨s.world.after env ev, s.tasks.set i (t.next run ev)⟩ := by
  cases ha with
  | @intro w w' tasks i t run ev env ht hs he =>
    obtain ⟨ev', hn, hobs, rfl⟩ := Run.notes_of_step hs
    rw [World.events_after] at he
    cases List.append_cancel_left he
    exact ⟨env, t, run, ht, hn, hobs, rfl⟩

theorem Acts.now_eq {i : Nat} {ev : Event σ} (ha : Acts s i ev s') :
    s'.world.now = s.world.now := by
  obtain ⟨env, t, run, -, -, -, rfl⟩ := ha.notes
  exact World.now_after env s.world ev

/-- After an event a key has the entry it had, or the one that was stored under it, or none. -/
theorem find?_after {env : Surroundings σ} {w : World σ} {ev : Event σ}
    (hf : (w.after env ev).cache.find? k = some e) :
    ev = .stored k e.answer ∨ w.cache.find? k = some e ∧ ∀ answer, ev ≠ .stored k answer := by
  cases ev with
  | lookedUp key result => exact .inr ⟨Cache.find?_of_find?_get hf, fun _ h => by cases h⟩
  | stored key answer =>
    by_cases hk : k = key
    · subst hk
      have hself := Cache.find?_set_self w.cache w.now k answer
      rw [show (w.after env (.stored k answer)).cache.find? k = _ from hself] at hf
      cases hf
      exact .inl rfl
    · refine .inr ⟨Cache.find?_of_find?_set_ne hk hf, fun _ h => ?_⟩
      cases h
      exact hk rfl
  | _ => exact .inr ⟨hf, fun _ h => by cases h⟩

/-! ## What a history records -/

/-- The last store under a key is that of its entry; as long as the entry is alive, no lookup after
it missed. -/
def LastStored (h : History σ) (now : Nat) (k : CacheKey) (e : CacheEntry) : Prop :=
  ∃ i before after, h = before ++ (i, .stored k e.answer) :: after ∧
    (∀ d ∈ after, ∀ answer, d.2 ≠ .stored k answer) ∧
    (now < e.expires → ∀ d ∈ after, d.2 ≠ .lookedUp k .miss)

/-- A history records what the requests of a state did and how its cache was filled. -/
structure Recorded (r : Resolver σ) (h : History σ) (s : System σ) : Prop where
  progress : ∀ t ∈ s.tasks, r.Progress t.id t.request t.trail t.left
  numbers : ∀ d ∈ h, d.1 < s.tasks.length
  trails : ∀ i t, s.tasks[i]? = some t → ∀ ev, ev ∈ t.trail ↔ (i, ev) ∈ h
  entries : ∀ k e, s.world.cache.find? k = some e → LastStored h s.world.now k e
  size : s.world.cache.size ≤ s.world.cache.settings.capacity

theorem recorded_start (settings : CacheSettings) (now : Nat) (sets : List (Text × MemorySet)) :
    Recorded r [] (start settings now sets) where
  progress := fun t ht => by cases ht
  numbers := fun d hd => by cases hd
  trails := fun i t ht => by cases ht
  entries := fun k e he => by cases he
  size := Nat.zero_le _

theorem Recorded.arrive {w : World σ} {tasks : List (Task σ)} (hr : Recorded r h ⟨w, tasks⟩)
    (id : UInt16) (request : Message) :
    Recorded r h ⟨w, tasks ++ [⟨request, id, r.run id request, []⟩]⟩ where
  progress := fun t ht => by
    rcases List.mem_append.1 ht with ht | ht
    · exact hr.progress t ht
    · rw [List.mem_singleton.1 ht]
      exact Resolver.progress_run r id request
  numbers := fun d hd => by
    rw [List.length_append]
    exact Nat.lt_add_right _ (hr.numbers d hd)
  trails := fun i t ht ev => by
    by_cases hi : i < tasks.length
    · rw [List.getElem?_append_left hi] at ht
      exact hr.trails i t ht ev
    · have hnew : i = tasks.length ∧ t = ⟨request, id, r.run id request, []⟩ := by
        rw [List.getElem?_append_right (by omega), List.getElem?_singleton] at ht
        split at ht
        · cases ht
          exact ⟨by omega, rfl⟩
        · cases ht
      obtain ⟨rfl, rfl⟩ := hnew
      exact ⟨fun he => (by cases he), fun he => absurd (hr.numbers _ he) hi⟩
  entries := hr.entries
  size := hr.size

theorem LastStored.later {now now' : Nat} (hl : LastStored h now k e) (hle : now ≤ now') :
    LastStored h now' k e := by
  obtain ⟨i, before, after, hh, hstores, hmisses⟩ := hl
  exact ⟨i, before, after, hh, hstores, fun hlive => hmisses (Nat.lt_of_le_of_lt hle hlive)⟩

theorem Recorded.wait {w : World σ} {tasks : List (Task σ)} (hr : Recorded r h ⟨w, tasks⟩)
    (seconds : Nat) : Recorded r h ⟨{ w with now := w.now + seconds }, tasks⟩ where
  progress := hr.progress
  numbers := hr.numbers
  trails := hr.trails
  entries := fun k e he => (hr.entries k e he).later (Nat.le_add_right _ _)
  size := hr.size

/-- What a lookup of a key finds while the entry of the key is alive. -/
theorem eq_of_observed {env : Surroundings σ} {w : World σ} {l : Lookup}
    (hobs : (Event.lookedUp k l : Event σ).Observed env w) (hf : w.cache.find? k = some e)
    (hlive : w.now < e.expires) : l = .ofAnswer e.answer :=
  Eq.trans hobs (Cache.get_of_live hf hlive)

theorem ofAnswer_ne_miss (answer : Option Message) : Lookup.ofAnswer answer ≠ .miss := by
  cases answer <;> exact fun h => by cases h

theorem LastStored.after {env : Surroundings σ} {w : World σ} {ev : Event σ} (i : Nat)
    (hr : ∀ k e, w.cache.find? k = some e → LastStored h w.now k e) (hobs : ev.Observed env w)
    (hf' : (w.after env ev).cache.find? k = some e) :
    LastStored (h ++ [(i, ev)]) (w.after env ev).now k e := by
  rw [World.now_after]
  rcases find?_after hf' with rfl | ⟨hf, hne⟩
  · exact ⟨i, h, [], rfl, fun d hd => (by cases hd), fun _ d hd => (by cases hd)⟩
  · obtain ⟨j, before, after, rfl, hstores, hmisses⟩ := hr k e hf
    refine ⟨j, before, after ++ [(i, ev)], by simp, fun d hd answer => ?_, fun hlive d hd => ?_⟩
    · rcases List.mem_append.1 hd with hd | hd
      · exact hstores d hd answer
      · rw [List.mem_singleton.1 hd]
        exact hne answer
    · rcases List.mem_append.1 hd with hd | hd
      · exact hmisses hlive d hd
      · rw [List.mem_singleton.1 hd]
        rintro rfl
        exact ofAnswer_ne_miss _ (eq_of_observed hobs hf hlive).symm

theorem Recorded.act {i : Nat} {ev : Event σ} (hr : Recorded r h s) (ha : Acts s i ev s') :
    Recorded r (h ++ [(i, ev)]) s' := by
  obtain ⟨env, t, run, ht, hn, hobs, rfl⟩ := ha.notes
  have hi : i < s.tasks.length := (List.getElem?_eq_some_iff.1 ht).1
  refine ⟨fun u hu => ?_, fun d hd => ?_, fun j u hu ev' => ?_,
    fun k e hf => LastStored.after i hr.entries hobs hf, ?_⟩
  · rcases List.mem_or_eq_of_mem_set hu with hu | rfl
    · exact hr.progress u hu
    · exact (hr.progress t (List.mem_of_getElem? ht)).notes hn
  · rw [List.length_set]
    rcases List.mem_append.1 hd with hd | hd
    · exact hr.numbers d hd
    · rw [List.mem_singleton.1 hd]
      exact hi
  · rw [List.mem_append, List.mem_singleton, Prod.mk.injEq]
    rw [List.getElem?_set] at hu
    split at hu
    next hij =>
      subst hij
      cases hu
      rw [Task.next, List.mem_append, List.mem_singleton, hr.trails i t ht]
      exact or_congr_right (and_iff_right rfl).symm
    next hij =>
      rw [hr.trails j u hu]
      exact ⟨.inl, fun hd => hd.resolve_right fun hd => hij hd.1.symm⟩
  · rw [World.settings_after]
    exact World.size_after_le env ev hr.size

theorem Moves.recorded {h₀ : History σ} (hm : Moves r s h s') (hr : Recorded r h₀ s) :
    Recorded r (h₀ ++ h) s' := by
  induction hm with
  | refl => rwa [List.append_nil]
  | arrive hm id request ih => exact ih.arrive id request
  | wait hm seconds ih => exact ih.wait seconds
  | act hm ha ih =>
    rw [← List.append_assoc]
    exact ih.act ha

/-! ## Without overlap -/

/-- A key has an entry, and no request is out for the key. -/
structure Settled (s : System σ) (k : CacheKey) (e : CacheEntry) : Prop where
  found : s.world.cache.find? k = some e
  noneOut : ∀ t ∈ s.tasks, ¬ t.IsOut k

/-- What the actions of a history find under a key is an answer, or that there was none. -/
def Finds (h : History σ) (k : CacheKey) (answer : Option Message) : Prop :=
  ∀ d ∈ h, ∀ l, d.2 = .lookedUp k l → l = .ofAnswer answer

theorem Finds.append {h' : History σ} {answer : Option Message} (hf : Finds h k answer)
    (hf' : Finds h' k answer) : Finds (h ++ h') k answer := fun d hd =>
  (List.mem_append.1 hd).elim (hf d) (hf' d)

/-- A request that is about to store under a key is out for it. -/
theorem isOut_of_store {t : Task σ} {answer : Option Message} {next : Run σ}
    (hp : r.Progress t.id t.request t.trail t.left) (hleft : t.left = .store k answer next) :
    t.IsOut k := by
  rw [hleft] at hp
  obtain ⟨q, g, calls, -, -, -, rfl, htrail⟩ := hp.of_store
  rw [Task.IsOut, htrail]
  simp [Resolver.missed]

/-- An action leaves an entry that is alive in its place, or it is a store that pushes it out. -/
theorem Settled.act {i : Nat} {ev : Event σ} (hs : Settled s k e) (hr : Recorded r h s)
    (hlive : s.world.now < e.expires) (ha : Acts s i ev s') :
    Finds [(i, ev)] k e.answer ∧ Settled s' k e ∨
      s'.world.cache.find? k = none ∧
        ∃ k' answer, ev = .stored k' answer ∧ k' ≠ k ∧ s.world.cache.PushesOut k' e := by
  obtain ⟨env, t, run, ht, hn, hobs, rfl⟩ := ha.notes
  have hmem := List.mem_of_getElem? ht
  have hfinds : ∀ l, ev = .lookedUp k l → l = .ofAnswer e.answer := by
    rintro l rfl
    exact eq_of_observed hobs hs.found hlive
  cases hf : (s.world.after env ev).cache.find? k with
  | none => exact .inr ⟨rfl, World.pushesOut_of_find?_after hr.size hs.found hlive hf⟩
  | some e' =>
    refine .inl ⟨fun d hd l hl => hfinds l (by rwa [List.mem_singleton.1 hd] at hl), ?_⟩
    rcases find?_after hf with rfl | ⟨hf', -⟩
    · exact absurd (isOut_of_store (hr.progress t hmem) hn.of_stored) (hs.noneOut t hmem)
    · have he := hs.found
      rw [hf'] at he
      cases he
      refine ⟨hf, fun u hu hout => ?_⟩
      rcases List.mem_or_eq_of_mem_set hu with hu | rfl
      · exact hs.noneOut u hu hout
      · refine hs.noneOut t hmem (hout.of_next fun hev => ?_)
        exact ofAnswer_ne_miss _ (hfinds _ hev).symm

theorem Moves.settings_eq (hm : Moves r s h s') :
    s'.world.cache.settings = s.world.cache.settings := by
  induction hm with
  | refl => rfl
  | arrive hm id request ih => exact ih
  | wait hm seconds ih => exact ih
  | act hm ha ih =>
    obtain ⟨env, t, run, -, -, -, rfl⟩ := ha.notes
    rw [← ih]
    exact World.settings_after env _ _

/-- In the course of a history an entry is pushed out: all lookups find it up to a store under
another key, for which a full cache gives up the entry that was used least recently. -/
inductive PushedOut (r : Resolver σ) (s : System σ) (k : CacheKey) (e : CacheEntry) :
    History σ → System σ → Prop
  | intro {h h' : History σ} {v u s' : System σ} {j : Nat} {k' : CacheKey}
      {answer : Option Message} (hbefore : Moves r s h v) (hfinds : Finds h k e.answer)
      (hfound : v.world.cache.find? k = some e) (hkey : k' ≠ k)
      (hsettings : v.world.cache.settings = s.world.cache.settings)
      (hpushes : v.world.cache.PushesOut k' e) (hstore : Acts v j (.stored k' answer) u)
      (hnone : u.world.cache.find? k = none) (hafter : Moves r u h' s') :
      PushedOut r s k e (h ++ (j, .stored k' answer) :: h') s'

/-- What comes after an entry was pushed out does not matter. -/
theorem PushedOut.append {h' : History σ} {s'' : System σ} (hp : PushedOut r s k e h s')
    (hmore : ∀ {u : System σ} {h₂ : History σ}, Moves r u h₂ s' → Moves r u (h₂ ++ h') s'') :
    PushedOut r s k e (h ++ h') s'' := by
  cases hp with
  | intro hbefore hfinds hfound hkey hsettings hpushes hstore hnone hafter =>
    rw [List.append_assoc]
    exact .intro hbefore hfinds hfound hkey hsettings hpushes hstore hnone (hmore hafter)

/-- An entry stays as long as it is alive, unless it is pushed out. -/
theorem Settled.moves {h₀ : History σ} (hs : Settled s k e) (hr : Recorded r h₀ s)
    (hm : Moves r s h s') (hlive : s'.world.now < e.expires) :
    Settled s' k e ∧ Finds h k e.answer ∨ PushedOut r s k e h s' := by
  induction hm with
  | refl => exact .inl ⟨hs, fun d hd => by cases hd⟩
  | @arrive h w tasks hm id request ih =>
    rcases ih hlive with ⟨hs', hfinds⟩ | hp
    · refine .inl ⟨⟨hs'.found, fun t ht hout => ?_⟩, hfinds⟩
      rcases List.mem_append.1 ht with ht | ht
      · exact hs'.noneOut t ht hout
      · rw [List.mem_singleton.1 ht] at hout
        cases hout.1
    · rw [← List.append_nil h]
      exact .inr (hp.append fun hu => by simpa using hu.arrive id request)
  | @wait h w tasks hm seconds ih =>
    rcases ih (Nat.lt_of_le_of_lt (Nat.le_add_right _ _) hlive) with ⟨hs', hfinds⟩ | hp
    · exact .inl ⟨⟨hs'.found, hs'.noneOut⟩, hfinds⟩
    · rw [← List.append_nil h]
      exact .inr (hp.append fun hu => by simpa using hu.wait seconds)
  | @act s' s'' h i ev hm ha ih =>
    rw [ha.now_eq] at hlive
    rcases ih hlive with ⟨hs', hfinds⟩ | hp
    · rcases hs'.act (hm.recorded hr) hlive ha with
        ⟨hfinds', hs''⟩ | ⟨hnone, k', answer, rfl, hkey, hpushes⟩
      · exact .inl ⟨hs'', hfinds.append hfinds'⟩
      · exact .inr (.intro hm hfinds hs'.found hkey hm.settings_eq hpushes ha hnone (.refl s''))
    · exact .inr (hp.append fun hu => hu.act ha)

/-! ## With overlap -/

/-- A request puts another entry in the place of one that is alive only when it had looked the key
up in vain before that one was stored; it stores what its own calls gave.  When no request is out
for the key, the entry stays till it expires or a full cache gives it up as the one that was used
least recently, and all lookups find it. -/
theorem replaced_only_by_overlap {settings : CacheSettings} {now : Nat}
    {sets : List (Text × MemorySet)} (hm : Moves r (start settings now sets) h s)
    (hf : s.world.cache.find? k = some e) (hlive : s.world.now < e.expires) :
    (∀ j ev s' e', Acts s j ev s' → s'.world.cache.find? k = some e' → e' ≠ e →
      ∃ i before after, h = before ++ (i, .stored k e.answer) :: after ∧ i ≠ j ∧
        (j, .lookedUp k .miss) ∈ before ∧
        ∃ t q g calls, s.tasks[j]? = some t ∧ k = CacheKey.of q t.request.extras ∧
          r.groupFor? q = some g ∧ t.trail = Resolver.missed t.id t.request q calls ∧
          ev = .stored k e'.answer ∧ Dispatched r.timeout g.servers calls e'.answer ∧
          (e'.answer = none →
            calls.map (·.1) = g.servers ∧ ∀ c ∈ calls, c.2.answer? r.timeout = none)) ∧
    ((∀ t ∈ s.tasks, ¬ t.IsOut k) → ∀ h' s', Moves r s h' s' → s'.world.now < e.expires →
      s'.world.cache.find? k = some e ∧ Finds h' k e.answer ∨ PushedOut r s k e h' s') := by
  have hr : Recorded r h s := hm.recorded (recorded_start settings now sets)
  refine ⟨fun j ev s' e' ha hf' hne => ?_, fun hout h' s' hm' hlive' => ?_⟩
  · obtain ⟨env, t, run, ht, hn, -, rfl⟩ := ha.notes
    rcases find?_after hf' with rfl | ⟨hsame, -⟩
    · have hp := hr.progress t (List.mem_of_getElem? ht)
      rw [hn.of_stored] at hp
      obtain ⟨q, g, calls, -, hg, hd, hkey, htrail⟩ := hp.of_store
      obtain ⟨i, before, after, hh, -, hmisses⟩ := hr.entries k e hf
      have hmiss : (j, .lookedUp k .miss) ∈ h := by
        rw [← hr.trails j t ht, htrail, hkey]
        exact List.mem_cons_self ..
      have hbefore : (j, .lookedUp k .miss) ∈ before := by
        rw [hh, List.mem_append, List.mem_cons] at hmiss
        rcases hmiss with hmiss | hmiss | hmiss
        · exact hmiss
        · cases hmiss
        · exact absurd rfl (hmisses hlive _ hmiss)
      have hij : i ≠ j := by
        rintro rfl
        have hstored : .stored k e.answer ∈ t.trail := by
          rw [hr.trails i t ht, hh]
          simp
        rw [htrail] at hstored
        simp [Resolver.missed] at hstored
      refine ⟨i, before, after, hh, hij, hbefore, t, q, g, calls, ht, hkey, hg, htrail, rfl, hd,
        fun hnone => ?_⟩
      rw [hnone] at hd
      exact hd.of_none
    · rw [hsame] at hf
      exact absurd (Option.some.inj hf) hne
  · rcases Settled.moves ⟨hf, hout⟩ hr hm' hlive' with ⟨hs', hfinds⟩ | hpushed
    · exact .inl ⟨hs'.found, hfinds⟩
    · exact .inr hpushed

/-- Two requests for one name that look it up at once get different answers; the second one takes
the place of the first. -/
theorem replaced_only_by_overlap_two_answers :
    ∃ (h : History Unit) (s s' : System Unit) (k : CacheKey) (e e' : CacheEntry),
      Moves .oneServer (start .standard 0 []) h s ∧ s.world.cache.find? k = some e ∧
      s.world.now < e.expires ∧ Acts s 1 (.stored k e'.answer) s' ∧
      s'.world.cache.find? k = some e' ∧ e' ≠ e ∧
      ∃ i before after, h = before ++ (i, .stored k e.answer) :: after ∧ i ≠ 1 ∧
        (1, .lookedUp k .miss) ∈ before := by
  let question : Question := ⟨⟨[[97]], by decide⟩, 1, 1⟩
  let request : Message := { Message.bare (Header.blank 1 false 0) with questions := [question] }
  let one : Surroundings Unit := .answering (Message.bare (Header.blank 1 true 0))
  let two : Surroundings Unit := .answering (Message.bare (Header.blank 2 true 0))
  have h₀ : Moves .oneServer (start .standard 0 []) [] (start .standard 0 []) := .refl _
  have h₁ := (h₀.arrive 1 request).arrive 2 request
  have h₂ := (h₁.act (.intro (i := 0) one rfl rfl rfl)).act (.intro (i := 1) two rfl rfl rfl)
  have h₃ := (h₂.act (.intro (i := 0) one rfl rfl rfl)).act (.intro (i := 1) two rfl rfl rfl)
  have h₄ := h₃.act (.intro (i := 0) one rfl rfl rfl)
  let key := CacheKey.of question request.extras
  let e : CacheEntry := ⟨key, some (Message.bare (Header.blank 1 true 0)), 60⟩
  let e' : CacheEntry := ⟨key, some (Message.bare (Header.blank 2 true 0)), 60⟩
  have hne : e' ≠ e := by decide
  obtain ⟨i, before, after, hh, hi, hmiss, -⟩ :=
    (replaced_only_by_overlap (k := key) (e := e) h₄ rfl (by decide)).1 1 _ _ e'
      (.intro two rfl rfl rfl) rfl hne
  exact ⟨_, _, _, key, e, e', h₄, rfl, by decide, .intro two rfl rfl rfl, rfl, hne, i, before,
    after, hh, hi, hmiss⟩

/-- Two requests for one name look it up at once; the first is answered and stores the answer, then
the second fails and stores that there is none.  A third one gets no reply, although the answer
would be alive for a minute. -/
theorem answer_lost_to_failure :
    ∃ (h h' : History Unit) (s s' s'' : System Unit) (k : CacheKey) (e e' : CacheEntry),
      Moves .oneServer (start .standard 0 []) h s ∧ Acts s 1 (.stored k none) s' ∧
      s.world.cache.find? k = some e ∧ e.answer.isSome ∧ s.world.now < e.expires ∧
      s'.world.cache.find? k = some e' ∧ e'.answer = none ∧
      Moves .oneServer s' h' s'' ∧ s''.world.now < e.expires ∧
      ∃ t ∈ s''.tasks, t.left = .done (.ok .negativeCached) := by
  let question : Question := ⟨⟨[[97]], by decide⟩, 1, 1⟩
  let request : Message := { Message.bare (Header.blank 1 false 0) with questions := [question] }
  let answer : Message := { Message.bare (Header.blank 1 true 0) with questions := [question] }
  let up : Surroundings Unit := .answering answer
  let down : Surroundings Unit := { up with reply := fun _ _ _ => ⟨none, .ok answer⟩ }
  have h₀ : Moves .oneServer (start .standard 0 []) [] (start .standard 0 []) := .refl _
  have h₁ := ((h₀.arrive 1 request).arrive 2 request).arrive 3 request
  -- Both look the key up, both ask, and the one that is answered stores first.
  have h₂ := (h₁.act (.intro (i := 0) up rfl rfl rfl)).act (.intro (i := 1) up rfl rfl rfl)
  have h₃ := (h₂.act (.intro (i := 0) up rfl rfl rfl)).act (.intro (i := 1) down rfl rfl rfl)
  have h₄ := h₃.act (.intro (i := 0) up rfl rfl rfl)
  exact ⟨_, _, _, _, _, _, _, _, h₄, .intro (i := 1) down rfl rfl rfl, rfl, rfl, by decide, rfl,
    rfl, (Moves.refl _).act (.intro (i := 2) up rfl rfl rfl), by decide,
    _, .tail _ (.tail _ (.head _)), rfl⟩

end System

end SplitDns
