import SplitDns.Proofs.Lockstep
import SplitDns.Proofs.Recency

/-!
# Requests one after the other

Requests are handled one after the other, each by its own clock.  As long as the cache has room for
all keys and no entry expires, what can be found under a key changes only when servers are asked for
it (`Resolver.Shifts`), which happens once; all other keys do not matter
(`Resolver.once_per_key`).
-/

namespace SplitDns

variable {σ : Type}

/-- The key of a request is that of its first question. -/
def Message.key? (m : Message) : Option CacheKey :=
  m.questions.head?.map fun q => CacheKey.of q m.extras

/-- A message as it is but for its id. -/
def Message.withoutId (m : Message) : Message :=
  { m with header := { m.header with id := 0 } }

/-- A request, the id of its queries, the times of its actions, and how servers, sets and the
client's side behave meanwhile. -/
structure Visit (σ : Type) where
  request : Message
  id : UInt16
  clock : Nat → Nat
  env : Surroundings σ

/-- What came of a request. -/
structure Served (σ : Type) where
  visit : Visit σ
  result : Except Failure Outcome
  events : List (Event σ)

namespace Served

def key? (s : Served σ) : Option CacheKey :=
  s.visit.request.key?

def replies (s : Served σ) : List Message :=
  s.events.filterMap Event.wrote?

def calls (s : Served σ) : List (σ × Message) :=
  s.events.filterMap Event.asked?

/-- A request ends by what the cache knows: with a reply made of an answer, or with none. -/
def Recalls (s : Served σ) : Option Message → Prop
  | some m => s.result = .ok .cached ∧ s.replies = [Message.stamp s.visit.request m]
  | none => s.result = .ok .negativeCached ∧ s.replies = []

end Served

/-- Whether servers answer by what a query says, whatever its id is and whatever happened before. -/
def Surroundings.AnswersBy (env : Surroundings σ) (f : σ → Message → ServerReply) : Prop :=
  ∀ es server query, env.reply es server query = f server query.withoutId

/-- The same request at the same times; ids, servers and sets may be others. -/
def Visit.Repeats (v v' : Visit σ) : Prop :=
  v.request = v'.request ∧ v.clock = v'.clock

/-- Ends and replies are the same, and queries but for their ids. -/
def Likeness.butIds : Likeness where
  ends := Eq
  queries p q := p.withoutId = q.withoutId
  replies := Eq

/-- Worlds in which the same is known under a key and, since some events, the same replies were
offered. -/
structure World.LikeUnder (k : CacheKey) (es₁ es₂ : List (Event σ)) (w₁ w₂ : World σ) : Prop where
  settings : w₁.cache.settings = w₂.cache.settings
  entry : w₁.cache.find? k = w₂.cache.find? k
  since : Event.Since (fun a b => a.wrote? = b.wrote?) es₁ es₂ w₁.events w₂.events

namespace World

theorem LeadsAt.settings {env : Surroundings σ} {clock : Nat → Nat} {w w' : World σ}
    {es : List (Event σ)} (h : w.LeadsAt env clock es w') :
    w'.cache.settings = w.cache.settings := by
  induction h with
  | nil clock w => rfl
  | cons he hs ih => exact ih.trans (settings_after env _ _)

end World

namespace Resolver

def worldAfter (r : Resolver σ) (v : Visit σ) (w : World σ) : World σ :=
  (r.executeAt v.env v.clock v.id v.request w).2

def serve (r : Resolver σ) (v : Visit σ) (w : World σ) : Served σ :=
  ⟨v, (r.executeAt v.env v.clock v.id v.request w).1,
    (r.worldAfter v w).events.drop w.events.length⟩

/-- Requests are served in order, each in the world that the one before it leaves. -/
def serveAll (r : Resolver σ) : World σ → List (Visit σ) → List (Served σ)
  | _, [] => []
  | w, v :: vs => r.serve v w :: serveAll r (r.worldAfter v w) vs

/-- Whether all that the cache holds when a request comes is alive. -/
def NoneExpires (r : Resolver σ) : World σ → List (Visit σ) → Prop
  | _, [] => True
  | w, v :: vs => w.cache.AliveAt (v.clock 0) ∧ NoneExpires r (r.worldAfter v w) vs

/-- Whether the keys that requests are looked up by are all among some. -/
def KeysAmong (r : Resolver σ) (keys : List CacheKey) (vs : List (Visit σ)) : Prop :=
  ∀ v ∈ vs, ∀ q, r.Admits v.request q → CacheKey.of q v.request.extras ∈ keys

/-- Of two requests with one key at most one asks servers, and the later one ends by what the
servers of the earlier one gave. -/
structure AskedOnce (r : Resolver σ) (a b : Served σ) : Prop where
  calls : a.calls = [] ∨ b.calls = []
  recalled : ∀ q answer, r.Settles a.visit.id a.visit.request a.events q answer →
    ∀ q', r.Admits b.visit.request q' → b.Recalls answer

variable {r : Resolver σ} {env : Surroundings σ} {clock : Nat → Nat} {id : UInt16}
  {request : Message} {es : List (Event σ)} {q : Question} {answer : Option Message}
  {w w' w₁ w₂ : World σ} {c c' : Cache} {keys : List CacheKey} {v v' : Visit σ}
  {vs vs' : List (Visit σ)} {k : CacheKey} {e : CacheEntry} {f : σ → Message → ServerReply}

theorem Passes.key? (h : Passes request q) :
    request.key? = some (CacheKey.of q request.extras) := by
  rw [Message.key?, h.first]
  rfl

/-! ## What is stored -/

theorem filterMap_stored? (h : ∀ e ∈ es, e.usesCache = false) :
    es.filterMap Event.stored? = [] := by
  rw [List.filterMap_eq_nil_iff]
  intro e he
  have hcache := h e he
  cases e with
  | stored key answer => cases hcache
  | _ => rfl

/-- What servers gave is all that is stored. -/
theorem Settles.stored? (hs : r.Settles id request es q answer) :
    es.filterMap Event.stored? = [(CacheKey.of q request.extras, answer)] := by
  obtain ⟨g, calls, tail, -, -, rfl, htail⟩ := hs.asked
  rw [List.filterMap_append, stored?_missed]
  exact congrArg (_ :: ·) (filterMap_stored? htail)

/-! ## One request -/

/-- What becomes of the cache: what can be found stays, or there was nothing under the key of the
request and now there is what its servers gave. -/
inductive Shifts (r : Resolver σ) (id : UInt16) (request : Message) (es : List (Event σ))
    (c c' : Cache) : Prop
  | stays (hasked : es.filterMap Event.asked? = []) (hstored : es.filterMap Event.stored? = [])
      (h : ∀ k, c'.find? k = c.find? k)
  | settles {q : Question} {answer : Option Message} {e : CacheEntry}
      (hs : r.Settles id request es q answer)
      (hnone : c.find? (CacheKey.of q request.extras) = none)
      (hsome : c'.find? (CacheKey.of q request.extras) = some e) (ha : e.answer = answer)
      (h : ∀ k ≠ CacheKey.of q request.extras, c'.find? k = c.find? k)

theorem UsesCache.shifts (h : r.UsesCache id request es) (hl : w.LeadsAt env clock es w')
    (hfits : w.cache.FitsIn keys) (halive : w.cache.AliveAt (clock 0))
    (hkeys : ∀ q, r.Admits request q → CacheKey.of q request.extras ∈ keys) :
    r.Shifts id request es w.cache w'.cache ∧ w'.cache.FitsIn keys := by
  cases h with
  | never hes hasked =>
    rw [hl.cache_eq hes]
    exact ⟨.stays hasked (filterMap_stored? hes) fun k => rfl, hfits⟩
  | @lookUp key l rest hes hrest hasked =>
    subst hes
    rw [cache_of_lookUp hl hrest]
    have hstored : rest.filterMap Event.stored? = [] := filterMap_stored? hrest
    exact ⟨.stays hasked hstored fun k => halive.find?_get _ k, hfits.get _ _⟩
  | @settles q answer hs =>
    obtain ⟨hmiss, now, hcache⟩ := hs.cache_of_leadsAt hl
    have hk := hkeys q hs.admits
    have hfits' := hfits.get (clock 0) (CacheKey.of q request.extras)
    rw [hcache]
    refine ⟨.settles hs (halive.find?_of_miss hmiss) (Cache.find?_set_self _ now _ answer) rfl
      fun k hne => ?_, hfits'.set hk now answer⟩
    rw [hfits'.find?_set_ne hk hne, halive.find?_get]

theorem serve_ended (r : Resolver σ) (v : Visit σ) (w : World σ) :
    w.LeadsAt v.env v.clock (r.serve v w).events (r.worldAfter v w) ∧
      Ended r v.id v.request (r.serve v w).events (r.serve v w).result := by
  obtain ⟨es, hl, h⟩ := executeAt_ended r v.env v.clock v.id v.request w
  have hes : (r.serve v w).events = es := by
    rw [serve, worldAfter, hl.events, List.drop_left]
  rw [hes]
  exact ⟨hl, h⟩

theorem shifts_serve (r : Resolver σ) (v : Visit σ) (hfits : w.cache.FitsIn keys)
    (halive : w.cache.AliveAt (v.clock 0))
    (hkeys : ∀ q, r.Admits v.request q → CacheKey.of q v.request.extras ∈ keys) :
    r.Shifts v.id v.request (r.serve v w).events w.cache (r.worldAfter v w).cache ∧
      (r.worldAfter v w).cache.FitsIn keys := by
  obtain ⟨hl, h⟩ := serve_ended r v w
  exact h.usesCache.shifts hl hfits halive hkeys

/-- What servers gave can be found afterwards. -/
theorem Shifts.found (h : r.Shifts id request es c c') (hs : r.Settles id request es q answer) :
    ∃ e, c'.find? (CacheKey.of q request.extras) = some e ∧ e.answer = answer := by
  have hstored := hs.stored?
  cases h with
  | stays hasked hnone h =>
    rw [hnone] at hstored
    cases hstored
  | @settles q' answer' e hs' hnone hsome ha h =>
    rw [hs'.stored?, List.cons.injEq, Prod.mk.injEq] at hstored
    obtain ⟨⟨hkey, hanswer⟩, -⟩ := hstored
    rw [← hkey]
    exact ⟨e, hsome, ha.trans hanswer⟩

/-- An entry stays. -/
theorem Shifts.kept (h : r.Shifts id request es c c') (hf : c.find? k = some e) :
    c'.find? k = some e := by
  cases h with
  | stays hasked hstored h => rw [h k, hf]
  | @settles q answer e' hs hnone hsome ha h =>
    by_cases hk : k = CacheKey.of q request.extras
    · rw [hk, hnone] at hf
      cases hf
    · rw [h k hk, hf]

/-- No servers are asked for a key under which there is an entry. -/
theorem Shifts.calls_eq_nil (h : r.Shifts id request es c c') (hk : request.key? = some k)
    (hf : c.find? k = some e) : es.filterMap Event.asked? = [] := by
  cases h with
  | stays hasked hstored h => exact hasked
  | @settles q answer e' hs hnone hsome ha h =>
    rw [hs.admits.key?] at hk
    cases hk
    rw [hnone] at hf
    cases hf

/-- A request with another key leaves what can be found under a key. -/
theorem Shifts.find?_of_ne (h : r.Shifts id request es c c') (hk : request.key? ≠ some k) :
    c'.find? k = c.find? k := by
  cases h with
  | stays hasked hstored h => exact h k
  | @settles q answer e' hs hnone hsome ha h =>
    refine h k fun heq => hk ?_
    rw [hs.admits.key?, heq]

/-- A request whose key has an entry that is alive ends by it. -/
theorem serve_of_find? (hq : r.Admits v.request q)
    (hf : w.cache.find? (CacheKey.of q v.request.extras) = some e)
    (hlive : v.clock 0 < e.expires) : (r.serve v w).Recalls e.answer := by
  obtain ⟨w₁, hlookUp, hevents⟩ : ∃ w₁,
      (w.atTime (v.clock 0)).lookUp (CacheKey.of q v.request.extras) =
        (.ofAnswer e.answer, w₁) ∧
      w₁.events =
        w.events ++ [.lookedUp (CacheKey.of q v.request.extras) (.ofAnswer e.answer)] := by
    have hget := Cache.get_of_live hf hlive
    exact ⟨_, Prod.ext hget rfl, by rw [← hget]; rfl⟩
  unfold Served.Recalls Served.replies serve worldAfter executeAt
  rw [run_of_admits hq, lookUp, Run.execAt]
  simp only [hlookUp]
  cases e.answer with
  | none =>
    refine ⟨rfl, ?_⟩
    simp only [Lookup.ofAnswer, Run.execAt]
    rw [hevents, List.drop_left]
    rfl
  | some m =>
    refine ⟨rfl, ?_⟩
    simp only [Lookup.ofAnswer, Run.execAt, World.write, World.note, World.atTime]
    rw [hevents, List.append_assoc, List.drop_left]
    rfl

/-! ## One key -/

/-- Under a key that has an entry servers are not asked again, and requests end by the entry. -/
theorem serveAll_of_find? (hfits : w.cache.FitsIn keys) (hkeys : r.KeysAmong keys vs)
    (halive : r.NoneExpires w vs) (hf : w.cache.find? k = some e) :
    ∀ s ∈ r.serveAll w vs, s.key? = some k →
      s.calls = [] ∧ ∀ q, r.Admits s.visit.request q → s.Recalls e.answer := by
  induction vs generalizing w with
  | nil => exact fun s hs => by cases hs
  | cons v vs ih =>
    obtain ⟨hnow, hlater⟩ := halive
    obtain ⟨hv, hvs⟩ := List.forall_mem_cons.1 hkeys
    obtain ⟨hshifts, hfits'⟩ := shifts_serve r v hfits hnow hv
    intro s hs hk
    rcases List.mem_cons.1 hs with rfl | hs
    · refine ⟨hshifts.calls_eq_nil hk hf, fun q hq => ?_⟩
      have hkey : k = CacheKey.of q v.request.extras := by
        have hsome := hq.key?.symm.trans hk
        exact (Option.some.inj hsome).symm
      rw [hkey] at hf
      exact serve_of_find? hq hf (hnow e (Cache.mem_of_find? hf))
    · exact ih hfits' hvs hlater (hshifts.kept hf) s hs hk

/-- A request that asks servers settles what is known under its key. -/
theorem exists_settles_of_calls (h : (r.serve v w).calls ≠ []) :
    ∃ q answer, r.Settles v.id v.request (r.serve v w).events q answer := by
  cases (serve_ended r v w).2.usesCache with
  | never hes hasked => exact absurd hasked h
  | lookUp hes hrest hasked => exact absurd hasked h
  | settles hs => exact ⟨_, _, hs⟩

theorem exists_settles_of_mem (r : Resolver σ) (w : World σ) (vs : List (Visit σ)) :
    ∀ s ∈ r.serveAll w vs, s.calls ≠ [] →
      ∃ q answer, r.Settles s.visit.id s.visit.request s.events q answer := by
  induction vs generalizing w with
  | nil => exact fun s hs => by cases hs
  | cons v vs ih => exact List.forall_mem_cons.2 ⟨exists_settles_of_calls, ih _⟩

theorem serveAll_pairwise (hfits : w.cache.FitsIn keys) (hkeys : r.KeysAmong keys vs)
    (halive : r.NoneExpires w vs) :
    (r.serveAll w vs).Pairwise fun a b => a.key? = b.key? → r.AskedOnce a b := by
  induction vs generalizing w with
  | nil => exact List.Pairwise.nil
  | cons v vs ih =>
    obtain ⟨hnow, hlater⟩ := halive
    obtain ⟨hv, hvs⟩ := List.forall_mem_cons.1 hkeys
    obtain ⟨hshifts, hfits'⟩ := shifts_serve r v hfits hnow hv
    refine List.pairwise_cons.2 ⟨fun s hs hk => ?_, ih hfits' hvs hlater⟩
    have hrest : ∀ q answer, r.Settles v.id v.request (r.serve v w).events q answer →
        s.calls = [] ∧ ∀ q', r.Admits s.visit.request q' → s.Recalls answer := by
      intro q answer hsettles
      obtain ⟨e, hf, rfl⟩ := hshifts.found hsettles
      exact serveAll_of_find? hfits' hvs hlater hf s hs (hk.symm.trans hsettles.admits.key?)
    refine ⟨?_, fun q answer hsettles => (hrest q answer hsettles).2⟩
    by_cases hcalls : (r.serve v w).calls = []
    · exact .inl hcalls
    · obtain ⟨q, answer, hsettles⟩ := exists_settles_of_calls hcalls
      exact .inr (hrest q answer hsettles).1

/-! ## Other keys do not matter -/

theorem filterMap_eq_of_forall₂ {α : Type} {g : Event σ → Option α} {fs₁ fs₂ : List (Event σ)}
    (h : List.Forall₂ (fun a b => g a = g b) fs₁ fs₂) : fs₁.filterMap g = fs₂.filterMap g := by
  induction h with
  | nil => rfl
  | cons hab hs ih => rw [List.filterMap_cons, List.filterMap_cons, hab, ih]

/-- Steps with one key keep worlds alike in what is known under it. -/
theorem keeps_likeUnder {env₁ env₂ : Surroundings σ} (h₁ : env₁.AnswersBy f)
    (h₂ : env₂.AnswersBy f) (timeout : Nat) (k : CacheKey) (es₁ es₂ : List (Event σ)) :
    Run.Keeps .butIds timeout k env₁ env₂ (World.LikeUnder k es₁ es₂) where
  lookUp := fun now h => by
    obtain ⟨hresult, hentry⟩ := Cache.get_congr h.entry now
    refine ⟨hresult, ?_, hentry, h.since.snoc rfl⟩
    have hsettings : ∀ c : Cache, (c.get now k).2.settings = c.settings := fun c =>
      Cache.settings_use c now (.get k)
    exact (hsettings _).trans (h.settings.trans (hsettings _).symm)
  ask := fun now server p q h hq => by
    refine ⟨?_, h.settings, h.entry, h.since.snoc rfl⟩
    show (env₁.reply _ server p).answer? timeout = (env₂.reply _ server q).answer? timeout
    rw [h₁, h₂, hq]
  store := fun now answer h => by
    refine ⟨h.settings, ?_, h.since.snoc rfl⟩
    show (Cache.set _ now k answer).find? k = (Cache.set _ now k answer).find? k
    rw [Cache.find?_set_self, Cache.find?_set_self]
    exact congrArg (fun s => some (CacheSettings.entry s k now answer)) h.settings
  add := fun now group set ip h => ⟨h.settings, h.entry, h.since.snoc rfl⟩
  write := fun now m n h hm => ⟨h.settings, h.entry, h.since.snoc (congrArg some hm)⟩

/-- Runs for one request differ in the ids of queries only. -/
theorem alike_run (r : Resolver σ) (id₁ id₂ : UInt16) (hk : request.key? = some k) :
    Run.Alike .butIds r.timeout k (r.run id₁ request) (r.run id₂ request) := by
  obtain ⟨q, hq, rfl⟩ := Option.map_eq_some_iff.1 hk
  obtain ⟨qs, hqs⟩ := List.head?_eq_some_iff.1 hq
  rw [run, run, hqs]
  simp only
  split
  · exact .done rfl
  · split
    · exact .done rfl
    · exact .write rfl (.done rfl)
    · exact alike_lookUp (fun _ => rfl) (fun _ => rfl) rfl rfl rfl

/-- What comes of a request depends on what is known under its key, and on no other key. -/
theorem serve_repeats (hrepeats : v.Repeats v') (hk : v.request.key? = some k)
    (h₁ : v.env.AnswersBy f) (h₂ : v'.env.AnswersBy f)
    (hsettings : w₁.cache.settings = w₂.cache.settings)
    (hentry : w₁.cache.find? k = w₂.cache.find? k) :
    (r.serve v w₁).result = (r.serve v' w₂).result ∧
      (r.serve v w₁).replies = (r.serve v' w₂).replies ∧
      (r.worldAfter v w₁).cache.settings = (r.worldAfter v' w₂).cache.settings ∧
      (r.worldAfter v w₁).cache.find? k = (r.worldAfter v' w₂).cache.find? k := by
  obtain ⟨hrequest, hclock⟩ := hrepeats
  obtain ⟨hresult, hworlds⟩ := (alike_run r v.id v'.id hk).execAt
    (keeps_likeUnder h₁ h₂ r.timeout k w₁.events w₂.events) v.clock
    ⟨hsettings, hentry, .start _ w₁.events w₂.events⟩
  unfold Served.replies serve worldAfter executeAt
  rw [← hrequest, ← hclock]
  exact ⟨hresult, filterMap_eq_of_forall₂ hworlds.since.drop, hworlds.settings, hworlds.entry⟩

theorem settings_worldAfter (r : Resolver σ) (v : Visit σ) (w : World σ) :
    (r.worldAfter v w).cache.settings = w.cache.settings :=
  (serve_ended r v w).1.settings

/-- Requests with one key fare as they do where there are no others. -/
theorem serveAll_repeats (hfits : w₁.cache.FitsIn keys) (hkeys : r.KeysAmong keys vs)
    (halive : r.NoneExpires w₁ vs) (h₁ : ∀ v ∈ vs, v.env.AnswersBy f)
    (h₂ : ∀ v ∈ vs', v.env.AnswersBy f) (hsettings : w₁.cache.settings = w₂.cache.settings)
    (hentry : w₁.cache.find? k = w₂.cache.find? k)
    (hrepeats : List.Forall₂ Visit.Repeats (vs.filter (·.request.key? = some k)) vs') :
    ((r.serveAll w₁ vs).filter (·.key? = some k)).map (fun s => (s.result, s.replies)) =
      (r.serveAll w₂ vs').map fun s => (s.result, s.replies) := by
  induction vs generalizing w₁ w₂ vs' with
  | nil =>
    cases hrepeats
    rfl
  | cons v vs ih =>
    obtain ⟨hnow, hlater⟩ := halive
    obtain ⟨hv, hvs⟩ := List.forall_mem_cons.1 hkeys
    obtain ⟨hanswers, h₁⟩ := List.forall_mem_cons.1 h₁
    obtain ⟨hshifts, hfits'⟩ := shifts_serve r v hfits hnow hv
    rw [serveAll]
    by_cases hk : v.request.key? = some k
    -- Both worlds serve a request with the key, and know the same under it afterwards.
    · have hserve : (r.serve v w₁).key? = some k := hk
      rw [List.filter_cons_of_pos (by simpa using hk)] at hrepeats
      cases hrepeats with
      | @cons _ v' _ vs' hhead htail =>
        obtain ⟨hanswers', h₂⟩ := List.forall_mem_cons.1 h₂
        obtain ⟨hresult, hreplies, hsettings', hentry'⟩ :=
          serve_repeats (r := r) hhead hk hanswers hanswers' hsettings hentry
        rw [List.filter_cons_of_pos (by simpa using hserve), List.map_cons, serveAll, List.map_cons,
          hresult, hreplies, ih hfits' hvs hlater h₁ h₂ hsettings' hentry' htail]
    -- Any other request is served in the first world only, where nothing changes under the key.
    · have hserve : ¬ (r.serve v w₁).key? = some k := hk
      rw [List.filter_cons_of_neg (by simpa using hk)] at hrepeats
      rw [List.filter_cons_of_neg (by simpa using hserve)]
      exact ih hfits' hvs hlater h₁ h₂ ((settings_worldAfter r v w₁).trans hsettings)
        ((hshifts.find?_of_ne hk).trans hentry) hrepeats

/-- As long as there is room for all keys and nothing expires, servers are asked once for each key;
later requests with the key end by what that gave.  When servers answer by what a query says, those
with one key fare as they do without the others. -/
theorem once_per_key (r : Resolver σ) (w : World σ) (keys : List CacheKey) (vs : List (Visit σ))
    (hfits : w.cache.FitsIn keys) (hkeys : r.KeysAmong keys vs) (halive : r.NoneExpires w vs) :
    ((r.serveAll w vs).Pairwise fun a b => a.key? = b.key? → r.AskedOnce a b) ∧
    (∀ s ∈ r.serveAll w vs, s.calls ≠ [] →
      ∃ q answer, r.Settles s.visit.id s.visit.request s.events q answer) ∧
    ∀ f k vs', (∀ v ∈ vs, v.env.AnswersBy f) → (∀ v ∈ vs', v.env.AnswersBy f) →
      List.Forall₂ Visit.Repeats (vs.filter (·.request.key? = some k)) vs' →
      ((r.serveAll w vs).filter (·.key? = some k)).map (fun s => (s.result, s.replies)) =
        (r.serveAll w vs').map fun s => (s.result, s.replies) :=
  ⟨serveAll_pairwise hfits hkeys halive, exists_settles_of_mem r w vs,
    fun _ _ _ h₁ h₂ hrepeats => serveAll_repeats hfits hkeys halive h₁ h₂ rfl rfl hrepeats⟩

/-- A cache for two entries: `a.` is asked for, then `b.`, then `A.`, for which the server is not
asked again, and which fares as if `b.` had not been asked for. -/
theorem once_per_key_two_names :
    let visit (name : Name) (id : UInt16) (now : Nat) : Visit Unit :=
      { request := { Message.bare (Header.blank 1 false 0) with questions := [⟨name, 1, 1⟩] }
        id := id
        clock := fun _ => now
        env := .answering (Message.bare (Header.blank 0 true 0)) }
    let a : Name := ⟨[[97]], by decide⟩
    let a' : Name := ⟨[[65]], by decide⟩
    let b : Name := ⟨[[98]], by decide⟩
    let w : World Unit := .fresh ⟨2, 60, 60, 10⟩
    let vs := [visit a 1 0, visit b 2 5, visit a' 3 10]
    let k : CacheKey := ⟨['a', '.'], 1, 1, []⟩
    let served := oneServer.serveAll w vs
    served.map (·.calls.length) = [1, 1, 0] ∧
    (served.Pairwise fun a b => a.key? = b.key? → oneServer.AskedOnce a b) ∧
    (served.filter (·.key? = some k)).map (fun s => (s.result, s.replies)) =
      (oneServer.serveAll w [visit a 7 0, visit a' 8 10]).map fun s => (s.result, s.replies) := by
  intro visit a a' b w vs k served
  have hfits : w.cache.FitsIn [k, ⟨['b', '.'], 1, 1, []⟩] := ⟨by decide, by decide, by decide⟩
  have hkeys : oneServer.KeysAmong [k, ⟨['b', '.'], 1, 1, []⟩] vs := by
    have hall : ∀ v ∈ vs, ∀ key ∈ v.request.key?, key ∈ [k, ⟨['b', '.'], 1, 1, []⟩] := by decide
    exact fun v hv q hq => hall v hv _ hq.key?
  have halive : oneServer.NoneExpires w vs := by
    refine ⟨?_, ?_, ?_, trivial⟩ <;> unfold Cache.AliveAt <;> decide
  let f (_ : Unit) (_ : Message) : ServerReply :=
    ⟨some 0, .ok (Message.bare (Header.blank 0 true 0))⟩
  have hvisit : ∀ name id now, (visit name id now).env.AnswersBy f := fun _ _ _ _ _ _ => rfl
  obtain ⟨hpairs, -, hrepeats⟩ := once_per_key oneServer w _ vs hfits hkeys halive
  refine ⟨by decide, hpairs, hrepeats f k _ ?_ ?_ ?_⟩
  · simp [vs, hvisit]
  · simp [hvisit]
  · exact .cons ⟨rfl, rfl⟩ (.cons ⟨rfl, rfl⟩ .nil)

end Resolver

end SplitDns
