import SplitDns.Proofs.CacheKey
import SplitDns.Proofs.LetterCase
import SplitDns.Proofs.Progress

/-!
# Requests that take turns

Any number of requests are handled at once and share one world, and they take turns in any order,
one action each time.  The invariant (`System.Inv`) is that each entry of the cache was stored by
one of the requests and each hit is an entry that was; with the program points of a request it says
where entries and cached replies come from (`System.Reachable.cache_sound`).
-/

namespace SplitDns

variable {σ : Type}

/-- A request that is being handled: what is left to do, and the events so far. -/
structure Task (σ : Type) where
  request : Message
  id : UInt16
  left : Run σ
  trail : List (Event σ)

/-- A request after its next action. -/
def Task.next (t : Task σ) (run : Run σ) (e : Event σ) : Task σ :=
  { t with left := run, trail := t.trail ++ [e] }

structure System (σ : Type) where
  world : World σ
  tasks : List (Task σ)

namespace System

/-- One step: a request arrives, time passes, or one of the requests takes its next action.
Servers, sets and clients may behave differently each time.  Requests have the form that all decoded
messages have (`Message.wellFormed_of_decode?`), and their extra records can be encoded. -/
inductive Step (r : Resolver σ) : System σ → System σ → Prop
  | arrive {w : World σ} {tasks : List (Task σ)} {request : Message} (id : UInt16)
      (hw : request.WellFormed) (hf : request.ExtrasFit) :
      Step r ⟨w, tasks⟩ ⟨w, tasks ++ [⟨request, id, r.run id request, []⟩]⟩
  | wait {w : World σ} {tasks : List (Task σ)} (seconds : Nat) :
      Step r ⟨w, tasks⟩ ⟨{ w with now := w.now + seconds }, tasks⟩
  | act {w w' : World σ} {before after : List (Task σ)} {t : Task σ} {run : Run σ}
      (env : Surroundings σ) (h : t.left.step env w = some (run, w')) :
      Step r ⟨w, before ++ t :: after⟩
        ⟨w', before ++
          { t with left := run, trail := t.trail ++ w'.events.drop w.events.length } :: after⟩

/-- The states that are reached from an empty cache. -/
inductive Reachable (r : Resolver σ) (settings : CacheSettings) : System σ → Prop
  | start (now : Nat) (sets : List (Text × MemorySet)) :
      Reachable r settings ⟨⟨Cache.empty settings, now, sets, []⟩, []⟩
  | step {s s' : System σ} (h : Reachable r settings s) (hs : Step r s s') :
      Reachable r settings s'

/-- Some request stored an answer, or that there was none, under a key. -/
def HasStored (tasks : List (Task σ)) (key : CacheKey) (answer : Option Message) : Prop :=
  ∃ t ∈ tasks, .stored key answer ∈ t.trail

/-- What holds of each request in a state: it is at one of its program points, the world knows its
events, and its hits are what some request stored. -/
structure Holds (r : Resolver σ) (s : System σ) (t : Task σ) : Prop where
  wellFormed : t.request.WellFormed
  fit : t.request.ExtrasFit
  progress : r.Progress t.id t.request t.trail t.left
  noted : ∀ e ∈ t.trail, e ∈ s.world.events
  hits : ∀ key m, .lookedUp key (.hit m) ∈ t.trail → HasStored s.tasks key (some m)

/-- The invariant of all steps. -/
structure Inv (r : Resolver σ) (s : System σ) : Prop where
  tasks : ∀ t ∈ s.tasks, Holds r s t
  entries : ∀ e ∈ s.world.cache.entries, HasStored s.tasks e.key e.answer

variable {r : Resolver σ} {settings : CacheSettings}

theorem Holds.mono {s s' : System σ} {t : Task σ} (h : Holds r s t)
    (hevents : ∀ e ∈ s.world.events, e ∈ s'.world.events)
    (hstored : ∀ key answer, HasStored s.tasks key answer → HasStored s'.tasks key answer) :
    Holds r s' t where
  wellFormed := h.wellFormed
  fit := h.fit
  progress := h.progress
  noted := fun e he => hevents e (h.noted e he)
  hits := fun key m hm => hstored key _ (h.hits key m hm)

theorem inv_start (now : Nat) (sets : List (Text × MemorySet)) :
    Inv r ⟨⟨Cache.empty settings, now, sets, []⟩, []⟩ := by
  constructor <;> intro x hx <;> cases hx

theorem inv_arrive {w : World σ} {tasks : List (Task σ)} {request : Message} (id : UInt16)
    (h : Inv r ⟨w, tasks⟩) (hw : request.WellFormed) (hf : request.ExtrasFit) :
    Inv r ⟨w, tasks ++ [⟨request, id, r.run id request, []⟩]⟩ := by
  have hstored : ∀ key answer, HasStored tasks key answer →
      HasStored (tasks ++ [⟨request, id, r.run id request, []⟩]) key answer :=
    fun key answer ⟨t, ht, he⟩ => ⟨t, List.mem_append_left _ ht, he⟩
  refine ⟨fun t ht => ?_, fun e he => hstored _ _ (h.entries e he)⟩
  rcases List.mem_append.1 ht with ht | ht
  · exact (h.tasks t ht).mono (fun e he => he) hstored
  · cases List.mem_singleton.1 ht
    exact ⟨hw, hf, Resolver.progress_run r id request, fun e he => (by cases he),
      fun key m hm => (by cases hm)⟩

theorem inv_wait {w : World σ} {tasks : List (Task σ)} (seconds : Nat) (h : Inv r ⟨w, tasks⟩) :
    Inv r ⟨{ w with now := w.now + seconds }, tasks⟩ :=
  ⟨fun t ht => (h.tasks t ht).mono (fun _ he => he) fun _ _ hs => hs, h.entries⟩

theorem HasStored.next {before after : List (Task σ)} {t : Task σ} {key : CacheKey}
    {answer : Option Message} (h : HasStored (before ++ t :: after) key answer) (run : Run σ)
    (e : Event σ) : HasStored (before ++ t.next run e :: after) key answer := by
  obtain ⟨u, hu, hmem⟩ := h
  rcases List.mem_append.1 hu with hu | hu
  · exact ⟨u, List.mem_append_left _ hu, hmem⟩
  · rcases List.mem_cons.1 hu with rfl | hu
    · exact ⟨u.next run e, by simp, List.mem_append_left _ hmem⟩
    · exact ⟨u, by simp [hu], hmem⟩

theorem mem_next {before after : List (Task σ)} {t u : Task σ} {run : Run σ} {e : Event σ}
    (h : u ∈ before ++ t.next run e :: after) : u ∈ before ++ t :: after ∨ u = t.next run e := by
  simp only [List.mem_append, List.mem_cons] at h ⊢
  rcases h with h | rfl | h
  · exact .inl (.inl h)
  · exact .inr rfl
  · exact .inl (.inr (.inr h))

/-- What holds of a request before an action holds after it; a hit is an entry of the cache, which
some request stored. -/
theorem Holds.act {env : Surroundings σ} {w : World σ} {tasks : List (Task σ)} {t : Task σ}
    {run : Run σ} {e : Event σ} (h : Inv r ⟨w, tasks⟩) (ht : Holds r ⟨w, tasks⟩ t)
    (hn : Run.Notes t.left e run) (he : e.Observed env w) :
    Holds r ⟨w.after env e, tasks⟩ (t.next run e) where
  wellFormed := ht.wellFormed
  fit := ht.fit
  progress := ht.progress.notes hn
  noted := fun x hx => by
    rw [World.events_after, List.mem_append]
    exact (List.mem_append.1 hx).imp_left (ht.noted x)
  hits := fun key m hm => by
    rcases List.mem_append.1 hm with hm | hm
    · exact ht.hits key m hm
    · cases List.mem_singleton.1 hm
      obtain ⟨entry, hentry, rfl, ha⟩ := Cache.get_eq_hit (Eq.symm he)
      have hstored := h.entries entry hentry
      rwa [ha] at hstored

theorem inv_act {w w' : World σ} {before after : List (Task σ)} {t : Task σ} {run : Run σ}
    {env : Surroundings σ} (h : Inv r ⟨w, before ++ t :: after⟩)
    (hs : t.left.step env w = some (run, w')) :
    Inv r ⟨w', before ++
      { t with left := run, trail := t.trail ++ w'.events.drop w.events.length } :: after⟩ := by
  obtain ⟨e, hn, he, rfl⟩ := Run.notes_of_step hs
  rw [World.events_after, List.drop_left]
  show Inv r ⟨w.after env e, before ++ t.next run e :: after⟩
  have hstored : ∀ key answer, HasStored (before ++ t :: after) key answer →
      HasStored (before ++ t.next run e :: after) key answer :=
    fun key answer h => h.next run e
  have hevents : ∀ x ∈ w.events, x ∈ (w.after env e).events := fun x hx => by
    rw [World.events_after]
    exact List.mem_append_left _ hx
  refine ⟨fun u hu => ?_, fun entry hentry => ?_⟩
  · rcases mem_next hu with hu | rfl
    · exact (h.tasks u hu).mono hevents hstored
    · exact (Holds.act h (h.tasks t (by simp)) hn he).mono (fun x hx => hx) hstored
  · rcases World.mem_entries_after hentry with hentry | rfl
    · exact hstored _ _ (h.entries entry hentry)
    · exact ⟨t.next run (.stored entry.key entry.answer), by simp, by simp [Task.next]⟩

theorem Reachable.inv {s : System σ} (h : Reachable r settings s) : Inv r s := by
  induction h with
  | start now sets => exact inv_start now sets
  | step h hs ih =>
    cases hs with
    | arrive id hw hf => exact inv_arrive id ih hw hf
    | wait seconds => exact inv_wait seconds ih
    | act env hs => exact inv_act ih hs

/-- A request may also be handled to its end while all others wait. -/
theorem Reachable.exec {before after : List (Task σ)} (env : Surroundings σ) (x : Run σ)
    (w : World σ) (t : Task σ) (hx : t.left = x)
    (h : Reachable r settings ⟨w, before ++ t :: after⟩) :
    ∃ trail, Reachable r settings ⟨(x.exec env w).2,
      before ++ { t with left := .done (x.exec env w).1, trail := trail } :: after⟩ := by
  have hstep : ∀ {x y : Run σ} {w w' : World σ} {t : Task σ}, t.left = x →
      x.step env w = some (y, w') → Reachable r settings ⟨w, before ++ t :: after⟩ →
      (∀ u : Task σ, u.left = y → Reachable r settings ⟨w', before ++ u :: after⟩ →
        ∃ trail, Reachable r settings ⟨(y.exec env w').2,
          before ++ { u with left := .done (y.exec env w').1, trail := trail } :: after⟩) →
      ∃ trail, Reachable r settings ⟨(x.exec env w).2,
        before ++ { t with left := .done (x.exec env w).1, trail := trail } :: after⟩ := by
    rintro x y w w' t rfl hs h ih
    rw [Run.exec_of_step hs]
    exact ih ⟨t.request, t.id, y, _⟩ rfl (.step h (.act env hs))
  induction x generalizing w t with
  | done result =>
    obtain ⟨request, id, left, trail⟩ := t
    cases hx
    exact ⟨trail, h⟩
  | lookUp key next ih => exact hstep hx rfl h fun u hu hr => ih _ _ u hu hr
  | ask server query next ih => exact hstep hx rfl h fun u hu hr => ih _ _ u hu hr
  | store key answer next ih => exact hstep hx rfl h fun u hu hr => ih _ u hu hr
  | add group set ip next ih => exact hstep hx rfl h fun u hu hr => ih _ u hu hr
  | write reply next ih => exact hstep hx rfl h fun u hu hr => ih _ u hu hr

theorem Reachable.execute {w : World σ} {tasks : List (Task σ)}
    (h : Reachable r settings ⟨w, tasks⟩) (env : Surroundings σ) (id : UInt16) {request : Message}
    (hw : request.WellFormed) (hf : request.ExtrasFit) :
    ∃ trail, Reachable r settings ⟨(r.execute env id request w).2,
      tasks ++ [⟨request, id, .done (r.execute env id request w).1, trail⟩]⟩ :=
  Reachable.exec env (r.run id request) w ⟨request, id, r.run id request, []⟩ rfl
    (.step h (.arrive id hw hf))

/-! ## Where answers come from -/

/-- An answer that a server gave in time to a query for what a key stands for.  The server is one of
the group that the name of the key is routed to; the query has the question of the key, letter case
aside, and the extra records that stand in it. -/
def Given (r : Resolver σ) (events : List (Event σ)) (key : CacheKey) (m : Message) : Prop :=
  ∃ g server query reply q, r.group? (r.router.resolve key.name).group = some g ∧
    server ∈ g.servers ∧ .asked server query reply ∈ events ∧
    reply.answer? r.timeout = some m ∧ query.questions = [q] ∧
    CacheKey.of q query.extras = key ∧ query.WellFormed ∧ query.ExtrasFit

/-- What holds of the cache and of cached replies, whatever the order of steps. -/
structure Sound (r : Resolver σ) (s : System σ) : Prop where
  /-- Answers in the cache were given to a query for what their key stands for. -/
  answers : ∀ e ∈ s.world.cache.entries, ∀ m, e.answer = some m → Given r s.world.events e.key m
  /-- Entries without an answer were stored after all servers of the group had failed. -/
  failures : ∀ e ∈ s.world.cache.entries, e.answer = none → ∃ t ∈ s.tasks, ∃ q g calls,
    t.request.questions.head? = some q ∧ CacheKey.of q t.request.extras = e.key ∧
    r.group? (r.router.resolve e.key.name).group = some g ∧ calls.map (·.1) = g.servers ∧
    (∀ c ∈ calls, c.2.answer? r.timeout = none) ∧
    t.trail = Resolver.missed t.id t.request q calls ++ [.stored e.key none]
  /-- Cached replies are answers to the question and the extra records of their own request. -/
  cached : ∀ t ∈ s.tasks, t.left = .done (.ok .cached) → ∃ q m taken g server query reply,
    t.request.questions.head? = some q ∧
    t.trail = [.lookedUp (CacheKey.of q t.request.extras) (.hit m),
      .wrote (Message.stamp t.request m) taken] ∧
    r.groupFor? q = some g ∧ server ∈ g.servers ∧ .asked server query reply ∈ s.world.events ∧
    reply.answer? r.timeout = some m ∧ query.questions.map Question.lower = [q.lower] ∧
    query.additionals = t.request.additionals ∧ query.edns = t.request.edns

theorem group?_key (r : Resolver σ) (q : Question) (extras : List Record) :
    r.group? (r.router.resolve (CacheKey.of q extras).name).group = r.groupFor? q := by
  rw [Resolver.groupFor?, ← Router.resolve_lower r.router q.name.text]
  rfl

theorem wellFormed_queryFor {request : Message} (h : request.WellFormed) (q : Question)
    (id : UInt16) : (Message.queryFor q request id).WellFormed :=
  ⟨by simp [Message.queryFor], by simp [Message.queryFor], h.additionals, h.edns⟩

theorem given_of_hasStored {s : System σ} (h : Inv r s) {key : CacheKey} {m : Message}
    (hs : HasStored s.tasks key (some m)) : Given r s.world.events key m := by
  obtain ⟨t, ht, he⟩ := hs
  obtain ⟨q, g, calls, hq, hg, hd, rfl, tail, htrail, -⟩ := (h.tasks t ht).progress.of_stored he
  obtain ⟨c, hc, ha⟩ := hd.exists_answer
  have hserver : c.1 ∈ g.servers :=
    hd.map_fst_isPrefix.subset (List.mem_map.2 ⟨c, hc, rfl⟩)
  refine ⟨g, c.1, Message.queryFor q t.request t.id, c.2, q, ?_, hserver, ?_, ha, rfl, rfl,
    wellFormed_queryFor (h.tasks t ht).wellFormed q t.id, (h.tasks t ht).fit⟩
  · rw [group?_key, hg]
  · refine (h.tasks t ht).noted _ ?_
    rw [htrail]
    exact Resolver.missed_subset (Resolver.asked_mem_missed hc)

/-- In every state that requests reach by taking turns, the cache holds what servers gave for its
keys, and cached replies answer their own requests. -/
theorem Reachable.cache_sound {s : System σ} (hs : Reachable r settings s) : Sound r s where
  answers := fun e he m hm => by
    have hstored := hs.inv.entries e he
    rw [hm] at hstored
    exact given_of_hasStored hs.inv hstored
  failures := fun e he hn => by
    obtain ⟨t, ht, hmem⟩ := hs.inv.entries e he
    rw [hn] at hmem
    obtain ⟨q, g, calls, hq, hg, hd, hkey, tail, htrail, htail⟩ :=
      (hs.inv.tasks t ht).progress.of_stored hmem
    obtain ⟨hservers, hfailed⟩ := hd.of_none
    refine ⟨t, ht, q, g, calls, hq.first, hkey.symm, ?_, hservers, hfailed, ?_⟩
    · rw [hkey, group?_key, hg]
    · rw [htrail, htail rfl, List.append_nil, hkey]
      rfl
  cached := fun t ht hleft => by
    have hh := hs.inv.tasks t ht
    have hp := hh.progress
    rw [hleft] at hp
    obtain ⟨q, m, taken, hq, htrail⟩ := hp.ended_of_done.of_cached
    have hit := hh.hits (CacheKey.of q t.request.extras) m (by simp [htrail])
    obtain ⟨g, server, query, reply, q', hg, hserver, hasked, hanswer, hquestions, hkey, hw, hf⟩ :=
      given_of_hasStored hs.inv hit
    obtain ⟨hlower, hextras⟩ := CacheKey.parts_of_eq hw hh.wellFormed hf hh.fit hkey
    refine ⟨q, m, taken, g, server, query, reply, hq.first, htrail, ?_, hserver, hasked, hanswer,
      ?_, hextras⟩
    · rw [← hg, group?_key]
    · rw [hquestions, List.map_singleton, hlower]

/-- A second request for what a first one asked is answered from the cache. -/
theorem cache_sound_two_requests :
    ∃ s : System Unit, Reachable .oneServer .standard s ∧
      (∃ e ∈ s.world.cache.entries, e.answer.isSome) ∧
      (∃ t ∈ s.tasks, t.left = .done (.ok .cached)) ∧ Sound .oneServer s := by
  let question : Question := ⟨⟨[[97]], by decide⟩, 1, 1⟩
  let request : Message := { Message.bare (Header.blank 1 false 0) with questions := [question] }
  let answer : Message := { Message.bare (Header.blank 1 true 0) with questions := [question] }
  have hw : request.WellFormed := by constructor <;> simp [request, Message.bare]
  have hf : request.ExtrasFit := by decide
  have hstart : Reachable Resolver.oneServer .standard ⟨.fresh .standard, []⟩ := .start 0 []
  obtain ⟨trail, h⟩ := hstart.execute (.answering answer) 7 hw hf
  obtain ⟨trail', h'⟩ := h.execute (.answering answer) 8 hw hf
  exact ⟨_, h', ⟨_, .head _, rfl⟩, ⟨_, List.mem_append_right _ (.head _), rfl⟩, h'.cache_sound⟩

end System

end SplitDns
