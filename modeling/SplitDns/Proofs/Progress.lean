import SplitDns.Proofs.CacheEntries
import SplitDns.Resolver.Basic

/-!
# Program points of a request

A run notes one event at each step, and its events lead from the world before it to the world after
it (`Run.exec_notes`).  `Resolver.Progress` lists the program points that the handling of a
request goes through, each with the events that lead to it; a run starts at one of them
(`Resolver.progress_run`) and no step leaves them (`Resolver.Progress.notes`).
-/

namespace SplitDns

variable {σ : Type}

/-! ## Steps and their events -/

/-- The world after an event. -/
def World.after (env : Surroundings σ) (w : World σ) (e : Event σ) : World σ :=
  match e with
  | .lookedUp key _ => { w with cache := (w.cache.get w.now key).2 }.note e
  | .asked _ _ _ => w.note e
  | .stored key answer => w.store key answer
  | .added group set ip => w.add env group set ip
  | .wrote _ _ => w.note e

theorem World.events_after (env : Surroundings σ) (w : World σ) (e : Event σ) :
    (w.after env e).events = w.events ++ [e] := by
  cases e <;> rfl

theorem World.settings_after (env : Surroundings σ) (w : World σ) (e : Event σ) :
    (w.after env e).cache.settings = w.cache.settings := by
  cases e with
  | lookedUp key result => exact Cache.settings_get w.cache w.now key
  | _ => rfl

/-- The entries of the cache after an event were there before or are stored by it. -/
theorem World.mem_entries_after {env : Surroundings σ} {w : World σ} {e : Event σ}
    {entry : CacheEntry} (h : entry ∈ (w.after env e).cache.entries) :
    entry ∈ w.cache.entries ∨ e = .stored entry.key entry.answer := by
  cases e with
  | lookedUp key result => exact .inl (Cache.mem_of_mem_get h)
  | asked server query reply => exact .inl h
  | stored key answer =>
    rcases Cache.mem_of_mem_set h with ⟨rfl, rfl⟩ | h
    · exact .inr rfl
    · exact .inl h
  | added group set ip => exact .inl h
  | wrote reply taken => exact .inl h

/-- Whether what an event says of the cache, a server or the client's side is what they do. -/
def Event.Observed (env : Surroundings σ) (w : World σ) : Event σ → Prop
  | lookedUp key result => result = (w.cache.get w.now key).1
  | asked server query reply => reply = env.reply w.events server query
  | wrote reply taken => taken = env.takes reply
  | _ => True

/-- Events that happen one after the other lead from a world to another. -/
inductive World.Leads (env : Surroundings σ) : World σ → List (Event σ) → World σ → Prop
  | nil (w : World σ) : Leads env w [] w
  | cons {w w' : World σ} {e : Event σ} {es : List (Event σ)} (h : e.Observed env w)
      (hs : Leads env (w.after env e) es w') : Leads env w (e :: es) w'

theorem World.Leads.events {env : Surroundings σ} {w w' : World σ} {es : List (Event σ)}
    (h : Leads env w es w') : w'.events = w.events ++ es := by
  induction h with
  | nil w => exact (List.append_nil _).symm
  | cons h hs ih => rw [ih, events_after, List.append_assoc, List.singleton_append]

theorem World.Leads.split {env : Surroundings σ} {w w' : World σ} {es fs : List (Event σ)}
    (h : Leads env w (es ++ fs) w') : ∃ v, Leads env w es v ∧ Leads env v fs w' := by
  induction es generalizing w with
  | nil => exact ⟨w, .nil w, h⟩
  | cons e es ih =>
    cases h with
    | cons he hs =>
      obtain ⟨v, hes, hfs⟩ := ih hs
      exact ⟨v, .cons he hes, hfs⟩

/-- Whether an event is a lookup in the cache or a store. -/
def Event.usesCache : Event σ → Bool
  | lookedUp _ _ => true
  | stored _ _ => true
  | _ => false

theorem World.cache_after {env : Surroundings σ} {w : World σ} {e : Event σ}
    (h : e.usesCache = false) : (w.after env e).cache = w.cache := by
  cases e with
  | lookedUp key result => cases h
  | stored key answer => cases h
  | _ => rfl

theorem World.Leads.cache_eq {env : Surroundings σ} {w w' : World σ} {es : List (Event σ)}
    (h : Leads env w es w') (hes : ∀ e ∈ es, e.usesCache = false) : w'.cache = w.cache := by
  induction h with
  | nil w => rfl
  | cons he hs ih =>
    rw [ih fun e he => hes e (List.mem_cons_of_mem _ he),
      World.cache_after (hes _ (List.mem_cons_self ..))]

namespace Run

/-- A run makes a step, notes an event and goes on as another run. -/
inductive Notes : Run σ → Event σ → Run σ → Prop
  | lookUp {key : CacheKey} {next : Lookup → Run σ} (result : Lookup) :
      Notes (.lookUp key next) (.lookedUp key result) (next result)
  | ask {server : σ} {query : Message} {next : ServerReply → Run σ} (reply : ServerReply) :
      Notes (.ask server query next) (.asked server query reply) (next reply)
  | store {key : CacheKey} {answer : Option Message} {next : Run σ} :
      Notes (.store key answer next) (.stored key answer) next
  | add {group : Text} {set : SetBinding} {ip : Ipv4} {next : Run σ} :
      Notes (.add group set ip next) (.added group set ip) next
  | write {reply : Message} {next : Run σ} (taken : Bool) :
      Notes (.write reply next) (.wrote reply taken) next

theorem notes_of_step {env : Surroundings σ} {x y : Run σ} {w w' : World σ}
    (h : x.step env w = some (y, w')) :
    ∃ e, Notes x e y ∧ e.Observed env w ∧ w' = w.after env e := by
  cases x with
  | done result => cases h
  | lookUp key next =>
    cases h
    exact ⟨_, .lookUp _, rfl, rfl⟩
  | ask server query next =>
    cases h
    exact ⟨_, .ask _, rfl, rfl⟩
  | store key answer next =>
    cases h
    exact ⟨_, .store, trivial, rfl⟩
  | add group set ip next =>
    cases h
    exact ⟨_, .add, trivial, rfl⟩
  | write reply next =>
    cases h
    exact ⟨_, .write _, rfl, rfl⟩

theorem Notes.of_stored {x y : Run σ} {key : CacheKey} {answer : Option Message}
    (h : Notes x (.stored key answer) y) : x = .store key answer y := by
  cases h
  rfl

theorem exec_of_step {env : Surroundings σ} {x y : Run σ} {w w' : World σ}
    (h : x.step env w = some (y, w')) : x.exec env w = y.exec env w' := by
  cases x with
  | done result => cases h
  | lookUp key next => cases h; rfl
  | ask server query next => cases h; rfl
  | store key answer next => cases h; rfl
  | add group set ip next => cases h; rfl
  | write reply next => cases h; rfl

/-- A property of runs and their events that each step preserves holds when a run is over. -/
theorem exec_notes {P : List (Event σ) → Run σ → Prop}
    (hP : ∀ {es x e y}, P es x → Notes x e y → P (es ++ [e]) y) (env : Surroundings σ)
    (x : Run σ) (w : World σ) (es : List (Event σ)) (h : P es x) :
    ∃ es', w.Leads env es' (x.exec env w).2 ∧ P (es ++ es') (.done (x.exec env w).1) := by
  have hstep : ∀ {x y : Run σ} {w w' : World σ}, x.step env w = some (y, w') →
      (∀ es, P es y → ∃ es', w'.Leads env es' (y.exec env w').2 ∧
        P (es ++ es') (.done (y.exec env w').1)) → ∀ es, P es x →
      ∃ es', w.Leads env es' (x.exec env w).2 ∧ P (es ++ es') (.done (x.exec env w).1) := by
    intro x y w w' hs ih es h
    obtain ⟨e, hn, he, rfl⟩ := notes_of_step hs
    obtain ⟨es', hw, h'⟩ := ih (es ++ [e]) (hP h hn)
    rw [exec_of_step hs]
    exact ⟨e :: es', .cons he hw, by rwa [List.append_assoc] at h'⟩
  induction x generalizing w es with
  | done result => exact ⟨[], .nil w, by rwa [List.append_nil]⟩
  | lookUp key next ih => exact hstep rfl (fun es => ih _ _ es) es h
  | ask server query next ih => exact hstep rfl (fun es => ih _ _ es) es h
  | store key answer next ih => exact hstep rfl (fun es => ih _ es) es h
  | add group set ip next ih => exact hstep rfl (fun es => ih _ es) es h
  | write reply next ih => exact hstep rfl (fun es => ih _ es) es h

end Run

/-! ## Calls to servers -/

/-- Servers are called in order until a call gives an answer in time. -/
inductive Dispatched (timeout : Nat) :
    List σ → List (σ × ServerReply) → Option Message → Prop
  | exhausted : Dispatched timeout [] [] none
  | answered {server : σ} {rest : List σ} {reply : ServerReply} {m : Message}
      (h : reply.answer? timeout = some m) :
      Dispatched timeout (server :: rest) [(server, reply)] (some m)
  | failed {server : σ} {rest : List σ} {reply : ServerReply} {calls : List (σ × ServerReply)}
      {answer : Option Message} (h : reply.answer? timeout = none)
      (hrest : Dispatched timeout rest calls answer) :
      Dispatched timeout (server :: rest) ((server, reply) :: calls) answer

namespace Dispatched

theorem append {timeout : Nat} {rest : List σ} {calls : List (σ × ServerReply)}
    {answer : Option Message} (h : Dispatched timeout rest calls answer) :
    ∀ {tried : List (σ × ServerReply)}, (∀ c ∈ tried, c.2.answer? timeout = none) →
      Dispatched timeout (tried.map (·.1) ++ rest) (tried ++ calls) answer
  | [], _ => h
  | c :: tried, hf => .failed (hf c (by simp)) (h.append fun d hd => hf d (by simp [hd]))

/-- Only the servers of a group are called, in order. -/
theorem map_fst_isPrefix {timeout : Nat} {servers : List σ} {calls : List (σ × ServerReply)}
    {answer : Option Message} (h : Dispatched timeout servers calls answer) :
    calls.map (·.1) <+: servers := by
  induction h with
  | exhausted => exact List.nil_prefix
  | answered h => exact ⟨_, rfl⟩
  | failed h hrest ih => exact List.cons_prefix_cons.2 ⟨rfl, ih⟩

/-- The answer is what one of the calls gave. -/
theorem exists_answer {timeout : Nat} {servers : List σ} {calls : List (σ × ServerReply)}
    {m : Message} (h : Dispatched timeout servers calls (some m)) :
    ∃ c ∈ calls, c.2.answer? timeout = some m := by
  generalize ha : some m = answer at h
  induction h with
  | exhausted => cases ha
  | @answered server rest reply m' h =>
    cases ha
    exact ⟨(server, reply), List.mem_singleton_self _, h⟩
  | failed h hrest ih =>
    obtain ⟨c, hc, hm⟩ := ih ha
    exact ⟨c, List.mem_cons_of_mem _ hc, hm⟩

/-- There is no answer only when all servers were called and failed. -/
theorem of_none {timeout : Nat} {servers : List σ} {calls : List (σ × ServerReply)}
    (h : Dispatched timeout servers calls none) :
    calls.map (·.1) = servers ∧ ∀ c ∈ calls, c.2.answer? timeout = none := by
  generalize ha : none = answer at h
  induction h with
  | exhausted => simp
  | answered h => cases ha
  | @failed server rest reply calls answer h hrest ih =>
    obtain ⟨hservers, hfailed⟩ := ih ha
    refine ⟨by rw [List.map_cons, hservers], fun c hc => ?_⟩
    rcases List.mem_cons.1 hc with rfl | hc
    · exact h.trans ha
    · exact hfailed c hc

end Dispatched

namespace Resolver

/-! ## Program points -/

/-- The first question of a request, which passes the loop guard. -/
structure Passes (request : Message) (q : Question) : Prop where
  first : request.questions.head? = some q
  guard : Domain.isLooping q.name.text = false

/-- The first question of a request, which passes the loop guard and for which hosts sources have
nothing. -/
structure Admits (r : Resolver σ) (request : Message) (q : Question) : Prop
    extends Passes request q where
  hosts : r.hostsRecord? q = .ok none

/-- The group that a question is routed to. -/
def groupFor? (r : Resolver σ) (q : Question) : Option (ServerGroup σ) :=
  r.group? (r.router.resolve q.name.text).group

/-- What ends a request before anything is looked up. -/
inductive Refuses (r : Resolver σ) (request : Message) : Failure → Prop
  | empty (h : request.questions = []) :
      Refuses r request (.invalidRequest "DNS request carries no question")
  | looping {q : Question} (hq : request.questions.head? = some q)
      (h : Domain.isLooping q.name.text = true) :
      Refuses r request (.recursiveQuery (String.ofList q.name.text))
  | record {q : Question} {fault : HostRecord.Fault} (hq : Passes request q)
      (h : r.hostsRecord? q = .error fault.failure) : Refuses r request fault.failure

/-- A cache miss and the calls that follow it. -/
def missed (id : UInt16) (request : Message) (q : Question) (calls : List (σ × ServerReply)) :
    List (Event σ) :=
  .lookedUp (CacheKey.of q request.extras) .miss ::
    calls.map fun c => .asked c.1 (Message.queryFor q request id) c.2

/-- A cache miss, the calls and what is stored then. -/
def settled (id : UInt16) (request : Message) (q : Question) (calls : List (σ × ServerReply))
    (answer : Option Message) : List (Event σ) :=
  missed id request q calls ++ [.stored (CacheKey.of q request.extras) answer]

theorem asked_mem_missed {id : UInt16} {request : Message} {q : Question}
    {calls : List (σ × ServerReply)} {c : σ × ServerReply} (hc : c ∈ calls) :
    .asked c.1 (Message.queryFor q request id) c.2 ∈ missed id request q calls :=
  List.mem_cons_of_mem _ (List.mem_map.2 ⟨c, hc, rfl⟩)

theorem missed_subset {id : UInt16} {request : Message} {q : Question}
    {calls : List (σ × ServerReply)} {answer : Option Message} {tail : List (Event σ)} :
    missed id request q calls ⊆ settled id request q calls answer ++ tail := by
  rw [settled, List.append_assoc]
  exact List.subset_append_left _ _

/-- The addresses of an answer go to the set of its group. -/
def additions (g : ServerGroup σ) (m : Message) : List (Event σ) :=
  g.set.elim [] fun set => m.ipv4Answers.map (.added g.name set)

/-- How the handling of a request ends, with the events that it notes. -/
inductive Ended (r : Resolver σ) (id : UInt16) (request : Message) :
    List (Event σ) → Except Failure Outcome → Prop
  | refused {e : Failure} (h : r.Refuses request e) : Ended r id request [] (.error e)
  | hosts {q : Question} {record : Record} (hq : Passes request q)
      (h : r.hostsRecord? q = .ok (some record)) (taken : Bool) :
      Ended r id request
        [.wrote (Message.stamp request (Message.ofRecord request record)) taken] (.ok .hosts)
  | cached {q : Question} (h : r.Admits request q) (m : Message) (taken : Bool) :
      Ended r id request
        [.lookedUp (CacheKey.of q request.extras) (.hit m), .wrote (Message.stamp request m) taken]
        (.ok .cached)
  | negative {q : Question} (h : r.Admits request q) :
      Ended r id request [.lookedUp (CacheKey.of q request.extras) .negative] (.ok .negativeCached)
  | unrouted {q : Question} (h : r.Admits request q) (hg : r.groupFor? q = none) :
      Ended r id request (missed id request q [])
        (.error (.groupNotFound (String.ofList (r.router.resolve q.name.text).group)))
  | failed {q : Question} {g : ServerGroup σ} {calls : List (σ × ServerReply)}
      (h : r.Admits request q) (hg : r.groupFor? q = some g)
      (hd : Dispatched r.timeout g.servers calls none) :
      Ended r id request (settled id request q calls none)
        (.error (.allServersFailed (String.ofList g.name)))
  | forwarded {q : Question} {g : ServerGroup σ} {calls : List (σ × ServerReply)} {m : Message}
      (h : r.Admits request q) (hg : r.groupFor? q = some g)
      (hd : Dispatched r.timeout g.servers calls (some m)) (taken : Bool) :
      Ended r id request
        (settled id request q calls (some m) ++
          (additions g m ++ [.wrote (Message.stamp request m) taken]))
        (.ok (.forwarded g.name))

/-- The program points of a request, with the events that lead to them. -/
inductive Progress (r : Resolver σ) (id : UInt16) (request : Message) :
    List (Event σ) → Run σ → Prop
  | found {q : Question} {record : Record} (hq : Passes request q)
      (h : r.hostsRecord? q = .ok (some record)) :
      Progress r id request []
        (.write (Message.stamp request (Message.ofRecord request record)) (.done (.ok .hosts)))
  | lookingUp {q : Question} (h : r.Admits request q) :
      Progress r id request [] (r.lookUp id request q)
  | hit {q : Question} (h : r.Admits request q) (m : Message) :
      Progress r id request [.lookedUp (CacheKey.of q request.extras) (.hit m)]
        (.write (Message.stamp request m) (.done (.ok .cached)))
  | asking {q : Question} {g : ServerGroup σ} {tried : List (σ × ServerReply)} {server : σ}
      {rest : List σ} (h : r.Admits request q) (hg : r.groupFor? q = some g)
      (hs : g.servers = tried.map (·.1) ++ server :: rest)
      (hf : ∀ c ∈ tried, c.2.answer? r.timeout = none) :
      Progress r id request (missed id request q tried)
        (.dispatch r.timeout (Message.queryFor q request id)
          (finish request (CacheKey.of q request.extras) g) (server :: rest))
  | storing {q : Question} {g : ServerGroup σ} {calls : List (σ × ServerReply)}
      {answer : Option Message} (h : r.Admits request q) (hg : r.groupFor? q = some g)
      (hd : Dispatched r.timeout g.servers calls answer) :
      Progress r id request (missed id request q calls)
        (finish request (CacheKey.of q request.extras) g answer)
  | adding {q : Question} {g : ServerGroup σ} {calls : List (σ × ServerReply)} {m : Message}
      {set : SetBinding} {added : List Ipv4} {ip : Ipv4} {left : List Ipv4}
      (h : r.Admits request q) (hg : r.groupFor? q = some g)
      (hd : Dispatched r.timeout g.servers calls (some m)) (hset : g.set = some set)
      (hm : m.ipv4Answers = added ++ ip :: left) :
      Progress r id request
        (settled id request q calls (some m) ++ added.map (.added g.name set))
        (.addAll g.name set (.write (Message.stamp request m) (.done (.ok (.forwarded g.name))))
          (ip :: left))
  | replying {q : Question} {g : ServerGroup σ} {calls : List (σ × ServerReply)} {m : Message}
      (h : r.Admits request q) (hg : r.groupFor? q = some g)
      (hd : Dispatched r.timeout g.servers calls (some m)) :
      Progress r id request (settled id request q calls (some m) ++ additions g m)
        (.write (Message.stamp request m) (.done (.ok (.forwarded g.name))))
  | ended {es : List (Event σ)} {result : Except Failure Outcome}
      (h : Ended r id request es result) : Progress r id request es (.done result)

variable {r : Resolver σ} {id : UInt16} {request : Message}

theorem hostsRecord?_error {q : Question} {e : Failure} (h : r.hostsRecord? q = .error e) :
    ∃ fault : HostRecord.Fault, e = fault.failure := by
  unfold hostsRecord? at h
  split at h
  · cases h
  · split at h
    · cases h
    · next fault _ =>
      cases h
      exact ⟨fault, rfl⟩

/-- A run starts at a program point. -/
theorem progress_run (r : Resolver σ) (id : UInt16) (request : Message) :
    Progress r id request [] (r.run id request) := by
  cases hq : request.questions with
  | nil =>
    rw [run, hq]
    exact .ended (.refused (.empty hq))
  | cons q qs =>
    have hfirst : request.questions.head? = some q := by rw [hq]; rfl
    rw [run, hq]
    simp only
    cases hl : Domain.isLooping q.name.text with
    | true =>
      rw [if_pos rfl]
      exact .ended (.refused (.looping hfirst hl))
    | false =>
      rw [if_neg Bool.false_ne_true]
      cases hh : r.hostsRecord? q with
      | error e =>
        obtain ⟨fault, rfl⟩ := hostsRecord?_error hh
        exact .ended (.refused (.record ⟨hfirst, hl⟩ hh))
      | ok found =>
        cases found with
        | none => exact .lookingUp ⟨⟨hfirst, hl⟩, hh⟩
        | some record => exact .found ⟨hfirst, hl⟩ hh

/-- After calls that failed, the next server is called or the failure is stored. -/
theorem progress_dispatch {q : Question} {g : ServerGroup σ} {tried : List (σ × ServerReply)}
    {rest : List σ} (h : r.Admits request q) (hg : r.groupFor? q = some g)
    (hs : g.servers = tried.map (·.1) ++ rest) (hf : ∀ c ∈ tried, c.2.answer? r.timeout = none) :
    Progress r id request (missed id request q tried)
      (.dispatch r.timeout (Message.queryFor q request id)
        (finish request (CacheKey.of q request.extras) g) rest) := by
  cases rest with
  | nil =>
    have hd := Dispatched.append (.exhausted : Dispatched (σ := σ) r.timeout [] [] none) hf
    rw [← hs, List.append_nil] at hd
    exact .storing h hg hd
  | cons server rest => exact .asking h hg hs hf

/-- A question that the cache has nothing for goes to the servers of its group. -/
theorem progress_forward {q : Question} (h : r.Admits request q) :
    Progress r id request (missed id request q [])
      (r.forward id request q (CacheKey.of q request.extras)) := by
  unfold forward
  cases hg : r.groupFor? q with
  | none =>
    rw [groupFor?] at hg
    simp only [hg]
    exact .ended (.unrouted h hg)
  | some g =>
    have hg' := hg
    rw [groupFor?] at hg
    simp only [hg]
    exact progress_dispatch h hg' (List.nil_append _).symm (by simp)

theorem progress_addAll {q : Question} {g : ServerGroup σ} {calls : List (σ × ServerReply)}
    {m : Message} {set : SetBinding} {added left : List Ipv4} (h : r.Admits request q)
    (hg : r.groupFor? q = some g) (hd : Dispatched r.timeout g.servers calls (some m))
    (hset : g.set = some set) (hm : m.ipv4Answers = added ++ left) :
    Progress r id request (settled id request q calls (some m) ++ added.map (.added g.name set))
      (.addAll g.name set (.write (Message.stamp request m) (.done (.ok (.forwarded g.name))))
        left) := by
  cases left with
  | nil =>
    have hadd : additions g m = added.map (.added g.name set) := by
      rw [additions, hset, hm, List.append_nil]
      rfl
    rw [← hadd]
    exact .replying h hg hd
  | cons ip left => exact .adding h hg hd hset hm

/-- A step leads from a program point to a program point. -/
theorem Progress.notes {es : List (Event σ)} {e : Event σ} {x y : Run σ}
    (h : Progress r id request es x) (hn : Run.Notes x e y) :
    Progress r id request (es ++ [e]) y := by
  cases h with
  | found hq h =>
    cases hn with
    | write taken => exact .ended (.hosts hq h taken)
  | lookingUp h =>
    unfold lookUp at hn
    cases hn with
    | lookUp result =>
      cases result with
      | hit m => exact .hit h m
      | negative => exact .ended (.negative h)
      | miss => exact progress_forward h
  | hit h m =>
    cases hn with
    | write taken => exact .ended (.cached h m taken)
  | @asking q g tried server rest h hg hs hf =>
    unfold Run.dispatch at hn
    cases hn with
    | ask reply =>
      have hes : missed id request q tried ++
          [.asked server (Message.queryFor q request id) reply] =
          missed id request q (tried ++ [(server, reply)]) := by
        rw [missed, missed, List.map_append]
        rfl
      rw [hes]
      cases ha : reply.answer? r.timeout with
      | some m =>
        simp only [ha]
        have hd := Dispatched.append (.answered ha : Dispatched r.timeout (server :: rest) _ _) hf
        rw [← hs] at hd
        exact .storing h hg hd
      | none =>
        simp only [ha]
        refine progress_dispatch h hg ?_ ?_
        · rw [hs, List.map_append, List.append_assoc]
          rfl
        · intro c hc
          rcases List.mem_append.1 hc with hc | hc
          · exact hf c hc
          · rw [List.mem_singleton.1 hc]
            exact ha
  | @storing q g calls answer h hg hd =>
    unfold finish at hn
    cases hn with
    | store =>
      cases answer with
      | none => exact .ended (.failed h hg hd)
      | some m =>
        cases hset : g.set with
        | none =>
          have hadd : additions g m = [] := by
            rw [additions, hset]
            rfl
          have hp :
              Progress r id request (settled id request q calls (some m) ++ additions g m) _ :=
            .replying h hg hd
          rwa [hadd, List.append_nil] at hp
        | some set =>
          have hp : Progress r id request (settled id request q calls (some m) ++ [].map _) _ :=
            progress_addAll h hg hd hset (List.nil_append m.ipv4Answers).symm
          rwa [List.map_nil, List.append_nil] at hp
  | @adding q g calls m set added ip left h hg hd hset hm =>
    unfold Run.addAll at hn
    cases hn with
    | add =>
      rw [List.append_assoc, ← List.map_singleton, ← List.map_append]
      exact progress_addAll h hg hd hset (by rw [hm, List.append_assoc]; rfl)
  | replying h hg hd =>
    cases hn with
    | write taken =>
      rw [List.append_assoc]
      exact .ended (.forwarded h hg hd taken)
  | ended => cases hn

theorem Progress.ended_of_done {es : List (Event σ)} {result : Except Failure Outcome}
    (h : Progress r id request es (.done result)) : Ended r id request es result := by
  generalize hx : Run.done result = x at h
  cases h with
  | ended h =>
    cases hx
    exact h
  | _ => cases hx

/-- A request that is about to store has called servers of its group till one answered. -/
theorem Progress.of_store {es : List (Event σ)} {key : CacheKey} {answer : Option Message}
    {next : Run σ} (h : Progress r id request es (.store key answer next)) :
    ∃ q g calls, r.Admits request q ∧ r.groupFor? q = some g ∧
      Dispatched r.timeout g.servers calls answer ∧ key = CacheKey.of q request.extras ∧
      es = missed id request q calls := by
  generalize hx : Run.store key answer next = x at h
  cases h with
  | storing h hg hd =>
    unfold finish at hx
    cases hx
    exact ⟨_, _, _, h, hg, hd, rfl, rfl⟩
  | _ => cases hx

theorem Ended.of_cached {es : List (Event σ)} (h : Ended r id request es (.ok .cached)) :
    ∃ q m taken, r.Admits request q ∧
      es = [.lookedUp (CacheKey.of q request.extras) (.hit m),
        .wrote (Message.stamp request m) taken] := by
  cases h with
  | @cached q h m taken => exact ⟨q, m, taken, h, rfl⟩

theorem eq_of_stored_mem {q : Question} {calls : List (σ × ServerReply)} {key : CacheKey}
    {answer answer' : Option Message} {tail : List (Event σ)}
    (hm : .stored key answer ∈ settled id request q calls answer' ++ tail)
    (ht : .stored key answer ∉ tail) :
    key = CacheKey.of q request.extras ∧ answer = answer' := by
  simpa [settled, missed, ht] using hm

/-- A request stores what its calls gave, under the key of its first question. -/
theorem Progress.of_stored {es : List (Event σ)} {x : Run σ} {key : CacheKey}
    {answer : Option Message} (h : Progress r id request es x) (hm : .stored key answer ∈ es) :
    ∃ q g calls, r.Admits request q ∧ r.groupFor? q = some g ∧
      Dispatched r.timeout g.servers calls answer ∧ key = CacheKey.of q request.extras ∧
      ∃ tail, es = settled id request q calls answer ++ tail ∧ (answer = none → tail = []) := by
  have hmissed : ∀ q calls, .stored key answer ∉ missed (σ := σ) id request q calls := by
    simp [missed]
  have hadditions : ∀ g m, .stored key answer ∉ additions (σ := σ) g m := by
    intro g m
    unfold additions
    cases g.set <;> simp
  have hsettled : ∀ {q g calls m tail}, r.Admits request q → r.groupFor? q = some g →
      Dispatched r.timeout g.servers calls (some m) → .stored key answer ∉ tail →
      .stored key answer ∈ settled id request q calls (some m) ++ tail →
      ∃ q' g' calls', r.Admits request q' ∧ r.groupFor? q' = some g' ∧
        Dispatched r.timeout g'.servers calls' answer ∧ key = CacheKey.of q' request.extras ∧
        ∃ tail', settled id request q calls (some m) ++ tail =
          settled id request q' calls' answer ++ tail' ∧ (answer = none → tail' = []) := by
    intro q g calls m tail h hg hd ht hm
    obtain ⟨hkey, rfl⟩ := eq_of_stored_mem hm ht
    exact ⟨q, g, calls, h, hg, hd, hkey, tail, rfl, fun hn => by cases hn⟩
  cases h with
  | found => cases hm
  | lookingUp => cases hm
  | hit => simp at hm
  | asking h hg hs hf => exact absurd hm (hmissed _ _)
  | storing h hg hd => exact absurd hm (hmissed _ _)
  | adding h hg hd hset hans => exact hsettled h hg hd (by simp) hm
  | replying h hg hd => exact hsettled h hg hd (hadditions _ _) hm
  | ended h =>
    cases h with
    | refused => cases hm
    | hosts => simp at hm
    | cached => simp at hm
    | negative => simp at hm
    | unrouted => exact absurd hm (hmissed _ _)
    | @failed q g calls h hg hd =>
      obtain ⟨hkey, rfl⟩ := @eq_of_stored_mem _ id request q calls key answer none []
        (by rwa [List.append_nil]) List.not_mem_nil
      exact ⟨q, g, calls, h, hg, hd, hkey, [], (List.append_nil _).symm, fun _ => rfl⟩
    | forwarded h hg hd taken => exact hsettled h hg hd (by simp [hadditions]) hm

/-- What a request notes and how it ends fit together, and its events lead to the world after it. -/
theorem execute_ended (r : Resolver σ) (env : Surroundings σ) (id : UInt16) (request : Message)
    (w : World σ) :
    ∃ es, w.Leads env es (r.execute env id request w).2 ∧
      Ended r id request es (r.execute env id request w).1 := by
  obtain ⟨es, hw, h⟩ := Run.exec_notes Progress.notes env (r.run id request) w []
    (progress_run r id request)
  exact ⟨es, hw, h.ended_of_done⟩

/-! ## One server -/

/-- A resolver with one server, to which all domains go. -/
def oneServer : Resolver Unit where
  router := ⟨[], [], none⟩
  groups := [⟨cleanGroup, [()], none⟩]
  hosts := []
  timeout := standardTimeout

end Resolver

/-- Servers give the same answer each time, at once, and all that is offered is taken. -/
def Surroundings.answering (m : Message) : Surroundings σ where
  reply _ _ _ := ⟨some 0, .ok m⟩
  accepts _ _ := true
  takes _ := true

/-- A world with an empty cache in which nothing has happened. -/
def World.fresh (settings : CacheSettings) : World σ :=
  ⟨Cache.empty settings, 0, [], []⟩

end SplitDns
