import SplitDns.Proofs.Stamping

/-!
# Requests that take time

Time passes between the actions of a request, above all while servers are asked.
`Resolver.executeAt` handles a request by a clock that shows any time at each of its actions; by a
clock that stands still that is `Resolver.execute` (`Resolver.executeAt_const`).  The events and the
end of a request fit together by any clock (`Resolver.executeAt_ended`).
-/

namespace SplitDns

variable {σ : Type}

def World.atTime (w : World σ) (now : Nat) : World σ :=
  { w with now := now }

namespace Run

/-- All actions of a run, of which the next one happens at `clock 0`, the one after it at `clock 1`
and so on. -/
def execAt (env : Surroundings σ) :
    Run σ → (Nat → Nat) → World σ → Except Failure Outcome × World σ
  | done result, _, w => (result, w)
  | lookUp key next, clock, w =>
    let w := w.atTime (clock 0)
    execAt env (next (w.lookUp key).1) (clock ∘ Nat.succ) (w.lookUp key).2
  | ask server query next, clock, w =>
    let w := w.atTime (clock 0)
    execAt env (next (w.ask env server query).1) (clock ∘ Nat.succ) (w.ask env server query).2
  | store key answer next, clock, w =>
    execAt env next (clock ∘ Nat.succ) ((w.atTime (clock 0)).store key answer)
  | add group set ip next, clock, w =>
    execAt env next (clock ∘ Nat.succ) ((w.atTime (clock 0)).add env group set ip)
  | write reply next, clock, w =>
    execAt env next (clock ∘ Nat.succ) ((w.atTime (clock 0)).write env reply)

theorem execAt_const (env : Surroundings σ) (x : Run σ) (w : World σ) :
    x.execAt env (fun _ => w.now) w = x.exec env w := by
  induction x generalizing w with
  | done result => rfl
  | lookUp key next ih => exact ih _ (w.lookUp key).2
  | ask server query next ih => exact ih _ (w.ask env server query).2
  | store key answer next ih => exact ih (w.store key answer)
  | add group set ip next ih => exact ih (w.add env group set ip)
  | write reply next ih => exact ih (w.write env reply)

theorem execAt_of_step {env : Surroundings σ} {x y : Run σ} {clock : Nat → Nat} {w w' : World σ}
    (h : x.step env (w.atTime (clock 0)) = some (y, w')) :
    x.execAt env clock w = y.execAt env (clock ∘ Nat.succ) w' := by
  cases x with
  | done result => cases h
  | lookUp key next => cases h; rfl
  | ask server query next => cases h; rfl
  | store key answer next => cases h; rfl
  | add group set ip next => cases h; rfl
  | write reply next => cases h; rfl

end Run

/-! ## Events by the clock -/

/-- Events that happen at the times of a clock lead from a world to another. -/
inductive World.LeadsAt (env : Surroundings σ) :
    (Nat → Nat) → World σ → List (Event σ) → World σ → Prop
  | nil (clock : Nat → Nat) (w : World σ) : LeadsAt env clock w [] w
  | cons {clock : Nat → Nat} {w w' : World σ} {e : Event σ} {es : List (Event σ)}
      (h : e.Observed env (w.atTime (clock 0)))
      (hs : LeadsAt env (clock ∘ Nat.succ) ((w.atTime (clock 0)).after env e) es w') :
      LeadsAt env clock w (e :: es) w'

namespace World.LeadsAt

variable {env : Surroundings σ} {clock : Nat → Nat} {w w' : World σ} {es fs : List (Event σ)}

theorem events (h : w.LeadsAt env clock es w') : w'.events = w.events ++ es := by
  induction h with
  | nil clock w => exact (List.append_nil _).symm
  | cons h hs ih =>
    rw [ih, World.events_after, List.append_assoc, List.singleton_append]
    rfl

theorem split (h : w.LeadsAt env clock (es ++ fs) w') :
    ∃ clock' v, w.LeadsAt env clock es v ∧ v.LeadsAt env clock' fs w' := by
  induction es generalizing clock w with
  | nil => exact ⟨clock, w, .nil clock w, h⟩
  | cons e es ih =>
    cases h with
    | cons he hs =>
      obtain ⟨clock', v, hes, hfs⟩ := ih hs
      exact ⟨clock', v, .cons he hes, hfs⟩

theorem cache_eq (h : w.LeadsAt env clock es w') (hes : ∀ e ∈ es, e.usesCache = false) :
    w'.cache = w.cache := by
  induction h with
  | nil clock w => rfl
  | cons he hs ih =>
    rw [ih fun e he => hes e (List.mem_cons_of_mem _ he),
      World.cache_after (hes _ (List.mem_cons_self ..))]
    rfl

/-- What becomes of the cache when something is stored between events that do not touch it. -/
theorem cache_of_store {key : CacheKey} {answer : Option Message}
    (h : w.LeadsAt env clock (es ++ .stored key answer :: fs) w')
    (hes : ∀ e ∈ es, e.usesCache = false) (hfs : ∀ e ∈ fs, e.usesCache = false) :
    ∃ now, w'.cache = w.cache.set now key answer := by
  obtain ⟨clock', v, hv, h⟩ := h.split
  cases h with
  | cons he hs =>
    refine ⟨clock' 0, (hs.cache_eq hfs).trans ?_⟩
    rw [← hv.cache_eq hes]
    rfl

end World.LeadsAt

/-- A property of runs and their events that each step preserves holds when a run is over. -/
theorem Run.execAt_notes {P : List (Event σ) → Run σ → Prop}
    (hP : ∀ {es x e y}, P es x → Notes x e y → P (es ++ [e]) y) (env : Surroundings σ) (x : Run σ)
    (clock : Nat → Nat) (w : World σ) (es : List (Event σ)) (h : P es x) :
    ∃ es', w.LeadsAt env clock es' (x.execAt env clock w).2 ∧
      P (es ++ es') (.done (x.execAt env clock w).1) := by
  have hstep : ∀ {x y : Run σ} {clock : Nat → Nat} {w w' : World σ},
      x.step env (w.atTime (clock 0)) = some (y, w') →
      (∀ es, P es y → ∃ es', w'.LeadsAt env (clock ∘ Nat.succ) es'
          (y.execAt env (clock ∘ Nat.succ) w').2 ∧
        P (es ++ es') (.done (y.execAt env (clock ∘ Nat.succ) w').1)) → ∀ es, P es x →
      ∃ es', w.LeadsAt env clock es' (x.execAt env clock w).2 ∧
        P (es ++ es') (.done (x.execAt env clock w).1) := by
    intro x y clock w w' hs ih es h
    obtain ⟨e, hn, he, rfl⟩ := notes_of_step hs
    obtain ⟨es', hw, h'⟩ := ih (es ++ [e]) (hP h hn)
    rw [execAt_of_step hs]
    exact ⟨e :: es', .cons he hw, by rwa [List.append_assoc] at h'⟩
  induction x generalizing clock w es with
  | done result => exact ⟨[], .nil clock w, by rwa [List.append_nil]⟩
  | lookUp key next ih => exact hstep rfl (fun es => ih _ _ _ es) es h
  | ask server query next ih => exact hstep rfl (fun es => ih _ _ _ es) es h
  | store key answer next ih => exact hstep rfl (fun es => ih _ _ es) es h
  | add group set ip next ih => exact hstep rfl (fun es => ih _ _ es) es h
  | write reply next ih => exact hstep rfl (fun es => ih _ _ es) es h

namespace Resolver

/-! ## Requests by the clock -/

def executeAt (r : Resolver σ) (env : Surroundings σ) (clock : Nat → Nat) (id : UInt16)
    (request : Message) (w : World σ) : Except Failure Outcome × World σ :=
  (r.run id request).execAt env clock w

/-- When the clock stands still a request is handled as if no time passed. -/
theorem executeAt_const (r : Resolver σ) (env : Surroundings σ) (id : UInt16) (request : Message)
    (w : World σ) :
    r.executeAt env (fun _ => w.now) id request w = r.execute env id request w :=
  Run.execAt_const env (r.run id request) w

theorem executeAt_ended (r : Resolver σ) (env : Surroundings σ) (clock : Nat → Nat) (id : UInt16)
    (request : Message) (w : World σ) :
    ∃ es, w.LeadsAt env clock es (r.executeAt env clock id request w).2 ∧
      Ended r id request es (r.executeAt env clock id request w).1 := by
  obtain ⟨es, hw, h⟩ := Run.execAt_notes Progress.notes env (r.run id request) clock w []
    (progress_run r id request)
  exact ⟨es, hw, h.ended_of_done⟩

variable {r : Resolver σ} {env : Surroundings σ} {clock : Nat → Nat} {id : UInt16}
  {request : Message} {es : List (Event σ)} {result : Except Failure Outcome} {w w' : World σ}

/-- Servers of the group of a request were called after a miss, and what they gave is stored. -/
structure Settles (r : Resolver σ) (id : UInt16) (request : Message) (es : List (Event σ))
    (q : Question) (answer : Option Message) : Prop where
  admits : r.Admits request q
  asked : ∃ g calls tail, r.groupFor? q = some g ∧ Dispatched r.timeout g.servers calls answer ∧
    es = missed id request q calls ++ .stored (CacheKey.of q request.extras) answer :: tail ∧
    ∀ e ∈ tail, e.usesCache = false

/-- How a request uses the cache: not at all, for a lookup only, or also to store what servers
gave. -/
inductive UsesCache (r : Resolver σ) (id : UInt16) (request : Message) (es : List (Event σ)) : Prop
  | never (hes : ∀ e ∈ es, e.usesCache = false) (hasked : es.filterMap Event.asked? = [])
  | lookUp {key : CacheKey} {l : Lookup} {rest : List (Event σ)}
      (hes : es = .lookedUp key l :: rest) (hrest : ∀ e ∈ rest, e.usesCache = false)
      (hasked : es.filterMap Event.asked? = [])
  | settles {q : Question} {answer : Option Message} (hs : r.Settles id request es q answer)

theorem Ended.usesCache (h : Ended r id request es result) : r.UsesCache id request es := by
  cases h with
  | refused h => exact .never (by simp) rfl
  | hosts hq h taken => exact .never (by simp [Event.usesCache]) rfl
  | cached h m taken => exact .lookUp rfl (by simp [Event.usesCache]) rfl
  | negative h => exact .lookUp rfl (by simp) rfl
  | unrouted h hg => exact .lookUp rfl (by simp) rfl
  | @failed q g calls h hg hd =>
    exact .settles ⟨h, g, calls, [], hg, hd, rfl, fun e he => by cases he⟩
  | @forwarded q g calls m h hg hd taken =>
    have hs : r.Settles id request (settled id request q calls (some m) ++
        (additions g m ++ [.wrote (Message.stamp request m) taken])) q (some m) := by
      refine ⟨h, g, calls, additions g m ++ [.wrote (Message.stamp request m) taken], hg, hd,
        by rw [settled, List.append_assoc]; rfl, fun e he => ?_⟩
      rcases List.mem_append.1 he with he | he
      · exact usesCache_additions he
      · rw [List.mem_singleton.1 he]
        rfl
    exact .settles hs

/-- What events that start with a lookup and store nothing leave in the cache. -/
theorem cache_of_lookUp {key : CacheKey} {l : Lookup}
    (hl : w.LeadsAt env clock (.lookedUp key l :: es) w') (hes : ∀ e ∈ es, e.usesCache = false) :
    w'.cache = (w.cache.get (clock 0) key).2 := by
  cases hl with
  | cons he hs => exact hs.cache_eq hes

/-- What servers gave is stored after a miss. -/
theorem Settles.cache_of_leadsAt {q : Question} {answer : Option Message}
    (hs : r.Settles id request es q answer) (hl : w.LeadsAt env clock es w') :
    (w.cache.get (clock 0) (CacheKey.of q request.extras)).1 = .miss ∧
      ∃ now, w'.cache = ((w.cache.get (clock 0) (CacheKey.of q request.extras)).2).set now
        (CacheKey.of q request.extras) answer := by
  obtain ⟨g, calls, tail, -, -, rfl, htail⟩ := hs.asked
  cases hl with
  | cons he hl =>
    refine ⟨Eq.symm he, hl.cache_of_store (fun e he => ?_) htail⟩
    obtain ⟨c, -, rfl⟩ := List.mem_map.1 he
    rfl

end Resolver

end SplitDns
