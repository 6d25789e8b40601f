import SplitDns.Proofs.CacheEntries
import SplitDns.Proofs.Progress

/-!
# Effects of a request

How a request ends says what it did: whether a reply is offered, what is stored, which servers are
called, and what is left as it was (`Resolver.execute_accounted`).
-/

namespace SplitDns

variable {σ : Type}

namespace Event

def lookedUp? : Event σ → Option (CacheKey × Lookup)
  | lookedUp key result => some (key, result)
  | _ => none

def stored? : Event σ → Option (CacheKey × Option Message)
  | stored key answer => some (key, answer)
  | _ => none

end Event

namespace Resolver

/-! ## Ends -/

/-- Whether a reply is offered to the client's side. -/
def replies : Except Failure Outcome → Bool
  | .ok .hosts => true
  | .ok .cached => true
  | .ok (.forwarded _) => true
  | .ok .negativeCached => false
  | .error _ => false

/-- Whether a request ends before the cache is asked. -/
def endsEarly : Except Failure Outcome → Bool
  | .ok .hosts => true
  | .error (.invalidRequest _) => true
  | .error (.recursiveQuery _) => true
  | .error (.invalidRecord _) => true
  | _ => false

/-- Whether a request ends after the cache was asked, and before any server is. -/
def endsUnasked : Except Failure Outcome → Bool
  | .ok .negativeCached => true
  | .error (.groupNotFound _) => true
  | _ => false

/-- A cache miss for the first question of a request, which is routed to a group. -/
def Misses (r : Resolver σ) (request : Message) (es : List (Event σ)) (q : Question)
    (g : ServerGroup σ) : Prop :=
  request.questions.head? = some q ∧ .lookedUp (CacheKey.of q request.extras) .miss ∈ es ∧
    r.groupFor? q = some g

/-- What a request that ends with `result` did by its events `es`, which lead from `w` to `w'`. -/
structure Accounted (r : Resolver σ) (env : Surroundings σ) (id : UInt16) (request : Message)
    (w : World σ) (es : List (Event σ)) (result : Except Failure Outcome) (w' : World σ) : Prop
    where
  leads : w.Leads env es w'
  /-- One reply is offered, or none. -/
  replied : (es.filterMap Event.wrote?).length = if replies result then 1 else 0
  /-- After a miss the servers of the group are called in order, till one answers; what they gave
  is stored then, once, and no server is called after that. -/
  stored : ∀ q g, Misses r request es q g → ∃ calls answer tail,
    es = missed id request q calls ++ .stored (CacheKey.of q request.extras) answer :: tail ∧
    Dispatched r.timeout g.servers calls answer ∧ calls.map (·.1) <+: g.servers ∧
    tail.filterMap Event.asked? = [] ∧
    es.filterMap Event.stored? = [(CacheKey.of q request.extras, answer)] ∧
    (answer = none ↔ ∃ name, result = .error (.allServersFailed name))
  /-- Without such a miss nothing is stored and no server is called. -/
  unstored : (¬ ∃ q g, Misses r request es q g) →
    es.filterMap Event.stored? = [] ∧ es.filterMap Event.asked? = []
  /-- A request that ends early looks nothing up, calls no server and is not routed. -/
  early : endsEarly result = true →
    es.filterMap Event.lookedUp? = [] ∧ es.filterMap Event.asked? = [] ∧
      ∀ router : Router, ({ r with router := router }).run id request = r.run id request
  /-- A request that ends before any server is called leaves the address sets as they were, and
  the entries of the cache that are alive. -/
  unasked : endsUnasked result = true →
    es.filterMap Event.asked? = [] ∧ es.filterMap Event.added? = [] ∧ w'.sets = w.sets ∧
      ∀ k e, w.now < e.expires → (w'.cache.find? k = some e ↔ w.cache.find? k = some e)

/-! ## Events of a kind -/

section

variable {r : Resolver σ} {env : Surroundings σ} {id : UInt16} {request : Message} {α : Type}

theorem filterMap_missed {f : Event σ → Option α} (hl : ∀ key, f (.lookedUp key .miss) = none)
    (ha : ∀ server query reply, f (.asked server query reply) = none) (q : Question)
    (calls : List (σ × ServerReply)) : (missed id request q calls).filterMap f = [] := by
  rw [missed, List.filterMap_cons, hl]
  simp only [List.filterMap_eq_nil_iff, List.mem_map]
  rintro e ⟨c, -, rfl⟩
  exact ha _ _ _

theorem filterMap_additions {f : Event σ → Option α}
    (h : ∀ group set ip, f (.added group set ip) = none) (g : ServerGroup σ) (m : Message) :
    (additions g m).filterMap f = [] := by
  unfold additions
  cases g.set with
  | none => rfl
  | some set =>
    simp only [Option.elim_some, List.filterMap_eq_nil_iff, List.mem_map]
    rintro e ⟨ip, -, rfl⟩
    exact h _ _ _

theorem wrote?_missed (q : Question) (calls : List (σ × ServerReply)) :
    (missed id request q calls).filterMap Event.wrote? = [] :=
  filterMap_missed (fun _ => rfl) (fun _ _ _ => rfl) q calls

theorem stored?_missed (q : Question) (calls : List (σ × ServerReply)) :
    (missed id request q calls).filterMap Event.stored? = [] :=
  filterMap_missed (fun _ => rfl) (fun _ _ _ => rfl) q calls

theorem wrote?_additions (g : ServerGroup σ) (m : Message) :
    (additions g m).filterMap Event.wrote? = [] :=
  filterMap_additions (fun _ _ _ => rfl) g m

theorem stored?_additions (g : ServerGroup σ) (m : Message) :
    (additions g m).filterMap Event.stored? = [] :=
  filterMap_additions (fun _ _ _ => rfl) g m

theorem asked?_additions (g : ServerGroup σ) (m : Message) :
    (additions g m).filterMap Event.asked? = [] :=
  filterMap_additions (fun _ _ _ => rfl) g m

/-! ## The fields one by one -/

variable {es : List (Event σ)} {result : Except Failure Outcome}

theorem Ended.replied (h : Ended r id request es result) :
    (es.filterMap Event.wrote?).length = if replies result then 1 else 0 := by
  cases h with
  | refused h => rfl
  | hosts hq h taken => rfl
  | cached h m taken => rfl
  | negative h => rfl
  | unrouted h hg => rfl
  | failed h hg hd =>
    rw [settled, List.filterMap_append, wrote?_missed]
    rfl
  | forwarded h hg hd taken =>
    rw [settled, List.filterMap_append, List.filterMap_append, List.filterMap_append,
      wrote?_missed, wrote?_additions]
    rfl

/-- A miss and a group for the first question of a request are those of its run. -/
theorem Admits.eq_of_misses {q q' : Question} {g' : ServerGroup σ} (h : r.Admits request q)
    (hmiss : Misses r request es q' g') : q' = q ∧ r.groupFor? q = some g' := by
  have hq := h.first
  rw [hmiss.1] at hq
  cases hq
  exact ⟨rfl, hmiss.2.2⟩

theorem Ended.stored (h : Ended r id request es result) (q : Question) (g : ServerGroup σ)
    (hmiss : Misses r request es q g) : ∃ calls answer tail,
      es = missed id request q calls ++ .stored (CacheKey.of q request.extras) answer :: tail ∧
      Dispatched r.timeout g.servers calls answer ∧ calls.map (·.1) <+: g.servers ∧
      tail.filterMap Event.asked? = [] ∧
      es.filterMap Event.stored? = [(CacheKey.of q request.extras, answer)] ∧
      (answer = none ↔ ∃ name, result = .error (.allServersFailed name)) := by
  cases h with
  | refused h => cases hmiss.2.1
  | hosts hq h taken => simp [Misses] at hmiss
  | cached h m taken => simp [Misses] at hmiss
  | negative h => simp [Misses] at hmiss
  | unrouted h hg =>
    obtain ⟨rfl, hg'⟩ := h.eq_of_misses hmiss
    rw [hg] at hg'
    cases hg'
  | @failed _ _ calls h hg hd =>
    obtain ⟨rfl, hg'⟩ := h.eq_of_misses hmiss
    rw [hg] at hg'
    cases hg'
    refine ⟨calls, none, [], rfl, hd, hd.map_fst_isPrefix, rfl, ?_, ?_⟩
    · rw [settled, List.filterMap_append, stored?_missed]
      rfl
    · exact ⟨fun _ => ⟨_, rfl⟩, fun _ => rfl⟩
  | @forwarded _ _ calls m h hg hd taken =>
    obtain ⟨rfl, hg'⟩ := h.eq_of_misses hmiss
    rw [hg] at hg'
    cases hg'
    refine ⟨calls, some m, additions g m ++ [.wrote (Message.stamp request m) taken], ?_, hd,
      hd.map_fst_isPrefix, ?_, ?_, ?_⟩
    · rw [settled, List.append_assoc]
      rfl
    · rw [List.filterMap_append, asked?_additions]
      rfl
    · rw [settled, List.filterMap_append, List.filterMap_append, List.filterMap_append,
        stored?_missed, stored?_additions]
      rfl
    · constructor
      · intro h
        cases h
      · rintro ⟨name, h⟩
        cases h

theorem Ended.unstored (h : Ended r id request es result)
    (hmiss : ¬ ∃ q g, Misses r request es q g) :
    es.filterMap Event.stored? = [] ∧ es.filterMap Event.asked? = [] := by
  cases h with
  | refused h => exact ⟨rfl, rfl⟩
  | hosts hq h taken => exact ⟨rfl, rfl⟩
  | cached h m taken => exact ⟨rfl, rfl⟩
  | negative h => exact ⟨rfl, rfl⟩
  | unrouted h hg => exact ⟨rfl, rfl⟩
  | failed h hg hd => exact absurd ⟨_, _, h.first, by simp [settled, missed], hg⟩ hmiss
  | forwarded h hg hd taken => exact absurd ⟨_, _, h.first, by simp [settled, missed], hg⟩ hmiss

theorem run_of_refuses {e : Failure} (h : r.Refuses request e) :
    r.run id request = .done (.error e) := by
  cases h with
  | empty h => rw [run, h]
  | @looping q hq h =>
    obtain ⟨qs, hqs⟩ := List.head?_eq_some_iff.1 hq
    rw [run, hqs]
    exact if_pos h
  | @record q fault hq h =>
    obtain ⟨qs, hqs⟩ := List.head?_eq_some_iff.1 hq.first
    rw [run, hqs]
    simp only [hq.guard, h]
    rfl

theorem run_of_found {q : Question} {record : Record} (hq : Passes request q)
    (h : r.hostsRecord? q = .ok (some record)) : r.run id request =
      .write (Message.stamp request (Message.ofRecord request record)) (.done (.ok .hosts)) := by
  obtain ⟨qs, hqs⟩ := List.head?_eq_some_iff.1 hq.first
  rw [run, hqs]
  simp only [hq.guard, h]
  rfl

theorem run_of_admits {q : Question} (h : r.Admits request q) :
    r.run id request = r.lookUp id request q := by
  obtain ⟨qs, hqs⟩ := List.head?_eq_some_iff.1 h.first
  rw [run, hqs]
  simp only [h.guard, h.hosts]
  rfl

theorem Refuses.reroute {e : Failure} (h : r.Refuses request e) (router : Router) :
    ({ r with router := router }).Refuses request e := by
  cases h with
  | empty h => exact .empty h
  | looping hq h => exact .looping hq h
  | record hq h => exact .record hq h

theorem Ended.early (h : Ended r id request es result) (he : endsEarly result = true) :
    es.filterMap Event.lookedUp? = [] ∧ es.filterMap Event.asked? = [] ∧
      ∀ router : Router, ({ r with router := router }).run id request = r.run id request := by
  cases h with
  | refused h =>
    refine ⟨rfl, rfl, fun router => ?_⟩
    rw [run_of_refuses h, run_of_refuses (h.reroute router)]
  | hosts hq h taken =>
    refine ⟨rfl, rfl, fun router => ?_⟩
    rw [run_of_found hq h, @run_of_found _ { r with router := router } _ _ _ _ hq h]
  | _ => cases he

/-- After nothing but a lookup all is as it was, except for entries of the cache that expired. -/
theorem kept_of_lookedUp {w w' : World σ} {key : CacheKey} {answer : Lookup}
    (h : w.Leads env [.lookedUp key answer] w') :
    w'.sets = w.sets ∧
      ∀ k e, w.now < e.expires → (w'.cache.find? k = some e ↔ w.cache.find? k = some e) := by
  cases h with
  | cons he hs =>
    cases hs
    exact ⟨rfl, fun k e hlive => Cache.find?_get key k hlive⟩

theorem Ended.unasked {w w' : World σ} (h : Ended r id request es result)
    (hl : w.Leads env es w') (he : endsUnasked result = true) :
    es.filterMap Event.asked? = [] ∧ es.filterMap Event.added? = [] ∧ w'.sets = w.sets ∧
      ∀ k e, w.now < e.expires → (w'.cache.find? k = some e ↔ w.cache.find? k = some e) := by
  cases h with
  | negative h => exact ⟨rfl, rfl, kept_of_lookedUp hl⟩
  | unrouted h hg => exact ⟨rfl, rfl, kept_of_lookedUp hl⟩
  | refused h => cases h <;> cases he
  | _ => cases he

end

/-- How a request ends, the reply that is offered and the effects on cache, servers and address
sets correspond. -/
theorem execute_accounted (r : Resolver σ) (env : Surroundings σ) (id : UInt16)
    (request : Message) (w : World σ) :
    ∃ es, Accounted r env id request w es (r.execute env id request w).1
      (r.execute env id request w).2 := by
  obtain ⟨es, hl, h⟩ := execute_ended r env id request w
  exact ⟨es, hl, h.replied, h.stored, h.unstored, h.early, h.unasked hl⟩

end Resolver

end SplitDns
