import SplitDns.Proofs.Fallback
import SplitDns.Proofs.Timing

/-!
# Writing back

An answer from a server goes to the address set of its group and to the client's side, and either
may refuse it, at one time and not at another.  `Resolver.executeThrough` handles a request while
the surroundings change from action to action.  Whatever is refused, a run goes on as if it was not:
a reply comes last (`Run.WritesLast`), and nothing else looks at what became of an addition or a
reply (`Resolver.write_back_isolated`).
-/

namespace SplitDns

variable {σ : Type}

/-! ## Surroundings that change -/

/-- The same servers, with address sets and a client's side that do as they please at each action
of a run. -/
def Surroundings.receiving (env : Surroundings σ) (accepts : Nat → SetBinding → Ipv4 → Bool)
    (takes : Nat → Message → Bool) (k : Nat) : Surroundings σ :=
  { env with accepts := accepts k, takes := takes k }

namespace Run

/-- All actions of a run, of which the next one happens in the surroundings `envs 0` at `clock 0`,
the one after it in `envs 1` at `clock 1` and so on. -/
def execThrough :
    Run σ → (Nat → Surroundings σ) → (Nat → Nat) → World σ → Except Failure Outcome × World σ
  | done result, _, _, w => (result, w)
  | lookUp key next, envs, clock, w =>
    let w := w.atTime (clock 0)
    execThrough (next (w.lookUp key).1) (envs ∘ Nat.succ) (clock ∘ Nat.succ) (w.lookUp key).2
  | ask server query next, envs, clock, w =>
    let w := w.atTime (clock 0)
    execThrough (next (w.ask (envs 0) server query).1) (envs ∘ Nat.succ) (clock ∘ Nat.succ)
      (w.ask (envs 0) server query).2
  | store key answer next, envs, clock, w =>
    execThrough next (envs ∘ Nat.succ) (clock ∘ Nat.succ) ((w.atTime (clock 0)).store key answer)
  | add group set ip next, envs, clock, w =>
    execThrough next (envs ∘ Nat.succ) (clock ∘ Nat.succ)
      ((w.atTime (clock 0)).add (envs 0) group set ip)
  | write reply next, envs, clock, w =>
    execThrough next (envs ∘ Nat.succ) (clock ∘ Nat.succ)
      ((w.atTime (clock 0)).write (envs 0) reply)

theorem execThrough_const (env : Surroundings σ) (x : Run σ) (clock : Nat → Nat) (w : World σ) :
    x.execThrough (fun _ => env) clock w = x.execAt env clock w := by
  induction x generalizing clock w with
  | done result => rfl
  | lookUp key next ih => exact ih _ (clock ∘ Nat.succ) _
  | ask server query next ih => exact ih _ (clock ∘ Nat.succ) _
  | store key answer next ih => exact ih (clock ∘ Nat.succ) _
  | add group set ip next ih => exact ih (clock ∘ Nat.succ) _
  | write reply next ih => exact ih (clock ∘ Nat.succ) _

theorem execThrough_of_step {x y : Run σ} {envs : Nat → Surroundings σ} {clock : Nat → Nat}
    {w w' : World σ} (h : x.step (envs 0) (w.atTime (clock 0)) = some (y, w')) :
    x.execThrough envs clock w = y.execThrough (envs ∘ Nat.succ) (clock ∘ Nat.succ) w' := by
  cases x with
  | done result => cases h
  | lookUp key next => cases h; rfl
  | ask server query next => cases h; rfl
  | store key answer next => cases h; rfl
  | add group set ip next => cases h; rfl
  | write reply next => cases h; rfl

end Run

/-! ## Events in surroundings that change -/

/-- Events lead from a world to another while servers reply as given, at whatever times and whatever
address sets and the client's side do. -/
inductive World.LeadsVia (reply : List (Event σ) → σ → Message → ServerReply) :
    World σ → List (Event σ) → World σ → Prop
  | nil (w : World σ) : LeadsVia reply w [] w
  | cons {env : Surroundings σ} {now : Nat} {w w' : World σ} {e : Event σ} {es : List (Event σ)}
      (henv : env.reply = reply) (h : e.Observed env (w.atTime now))
      (hs : LeadsVia reply ((w.atTime now).after env e) es w') : LeadsVia reply w (e :: es) w'

/-- Additions to the set of a group leave the sets of other groups as they are. -/
theorem World.filter_map_addTo {keep : Text → Bool} {group : Text} (h : keep group = false)
    (now : Nat) (set : SetBinding) (ip : Ipv4) (sets : List (Text × MemorySet)) :
    (sets.map (addTo now group set ip)).filter (fun s => keep s.1) =
      sets.filter fun s => keep s.1 := by
  induction sets with
  | nil => rfl
  | cons s sets ih =>
    rw [List.map_cons, List.filter_cons, List.filter_cons, ih]
    by_cases hs : s.1 = group
    · simp [addTo, hs, h]
    · simp [addTo, hs]

namespace World.LeadsVia

variable {reply : List (Event σ) → σ → Message → ServerReply} {w w' : World σ}
  {es fs : List (Event σ)}

theorem events (h : w.LeadsVia reply es w') : w'.events = w.events ++ es := by
  induction h with
  | nil w => exact (List.append_nil _).symm
  | cons henv h hs ih =>
    rw [ih, World.events_after, List.append_assoc, List.singleton_append]
    rfl

theorem drop_events (h : w.LeadsVia reply es w') : w'.events.drop w.events.length = es := by
  rw [h.events, List.drop_left]

theorem split (h : w.LeadsVia reply (es ++ fs) w') :
    ∃ v, w.LeadsVia reply es v ∧ v.LeadsVia reply fs w' := by
  induction es generalizing w with
  | nil => exact ⟨w, .nil w, h⟩
  | cons e es ih =>
    cases h with
    | cons henv he hs =>
      obtain ⟨v, hes, hfs⟩ := ih hs
      exact ⟨v, .cons henv he hes, hfs⟩

/-- Events that add nothing to the sets of some groups leave these as they are. -/
theorem sets_eq (h : w.LeadsVia reply es w') (keep : Text → Bool)
    (hes : ∀ group set ip, .added group set ip ∈ es → keep group = false) :
    w'.sets.filter (fun s => keep s.1) = w.sets.filter fun s => keep s.1 := by
  induction h with
  | nil w => rfl
  | @cons env now w w' e es henv he hs ih =>
    rw [ih fun group set ip hmem => hes group set ip (List.mem_cons_of_mem _ hmem)]
    cases e with
    | added group set ip =>
      have hgroup : keep group = false := hes group set ip List.mem_cons_self
      show (if env.accepts set ip then _ else w.sets).filter _ = _
      by_cases haccepts : env.accepts set ip = true
      · rw [if_pos haccepts]
        exact World.filter_map_addTo hgroup now set ip w.sets
      · rw [if_neg haccepts]
    | _ => rfl

/-- Calls that happen one after the other have the replies that all servers would give. -/
theorem calls_isPrefix {env : Surroundings σ} {query : Message} {calls : List (σ × ServerReply)}
    {servers : List σ} (h : w.LeadsVia env.reply (calls.map fun c => .asked c.1 query c.2) w')
    (hservers : calls.map (·.1) <+: servers) :
    calls <+: env.replies query w.events servers := by
  induction calls generalizing w servers with
  | nil => exact List.nil_prefix
  | cons c calls ih =>
    obtain ⟨rest, rfl⟩ := hservers
    cases h with
    | @cons env' _ _ _ _ _ henv hc hs =>
      have hrest := ih hs (List.prefix_append _ rest)
      obtain ⟨server, reply⟩ := c
      obtain rfl : reply = env'.reply w.events server query := hc
      rw [henv] at hrest ⊢
      exact List.cons_prefix_cons.2 ⟨rfl, hrest⟩

end World.LeadsVia

/-- A property of runs and their events that each step preserves holds when a run is over. -/
theorem Run.execThrough_notes {P : List (Event σ) → Run σ → Prop}
    (hP : ∀ {es x e y}, P es x → Notes x e y → P (es ++ [e]) y)
    {reply : List (Event σ) → σ → Message → ServerReply} (x : Run σ) {envs : Nat → Surroundings σ}
    (henvs : ∀ k, (envs k).reply = reply) (clock : Nat → Nat) (w : World σ) (es : List (Event σ))
    (h : P es x) :
    ∃ es', w.LeadsVia reply es' (x.execThrough envs clock w).2 ∧
      P (es ++ es') (.done (x.execThrough envs clock w).1) := by
  have hstep : ∀ {x y : Run σ} {envs : Nat → Surroundings σ} {clock : Nat → Nat} {w w' : World σ},
      (∀ k, (envs k).reply = reply) → x.step (envs 0) (w.atTime (clock 0)) = some (y, w') →
      (∀ es, P es y → ∃ es',
        w'.LeadsVia reply es' (y.execThrough (envs ∘ Nat.succ) (clock ∘ Nat.succ) w').2 ∧
        P (es ++ es') (.done (y.execThrough (envs ∘ Nat.succ) (clock ∘ Nat.succ) w').1)) →
      ∀ es, P es x → ∃ es', w.LeadsVia reply es' (x.execThrough envs clock w).2 ∧
        P (es ++ es') (.done (x.execThrough envs clock w).1) := by
    intro x y envs clock w w' henvs hs ih es h
    obtain ⟨e, hn, he, rfl⟩ := notes_of_step hs
    obtain ⟨es', hw, h'⟩ := ih (es ++ [e]) (hP h hn)
    rw [execThrough_of_step hs]
    exact ⟨e :: es', .cons (henvs 0) he hw, by rwa [List.append_assoc] at h'⟩
  induction x generalizing envs clock w es with
  | done result => exact ⟨[], .nil w, by rwa [List.append_nil]⟩
  | lookUp key next ih =>
    exact hstep henvs rfl (fun es => ih _ (fun k => henvs (k + 1)) _ _ es) es h
  | ask server query next ih =>
    exact hstep henvs rfl (fun es => ih _ (fun k => henvs (k + 1)) _ _ es) es h
  | store key answer next ih =>
    exact hstep henvs rfl (fun es => ih (fun k => henvs (k + 1)) _ _ es) es h
  | add group set ip next ih =>
    exact hstep henvs rfl (fun es => ih (fun k => henvs (k + 1)) _ _ es) es h
  | write reply next ih =>
    exact hstep henvs rfl (fun es => ih (fun k => henvs (k + 1)) _ _ es) es h

/-! ## Runs that write last -/

/-- A run that has ended once it has written a reply. -/
inductive Run.WritesLast : Run σ → Prop
  | done (result : Except Failure Outcome) : WritesLast (.done result)
  | lookUp {key : CacheKey} {next : Lookup → Run σ} (h : ∀ l, WritesLast (next l)) :
      WritesLast (.lookUp key next)
  | ask {server : σ} {query : Message} {next : ServerReply → Run σ}
      (h : ∀ reply, WritesLast (next reply)) : WritesLast (.ask server query next)
  | store {key : CacheKey} {answer : Option Message} {next : Run σ} (h : WritesLast next) :
      WritesLast (.store key answer next)
  | add {group : Text} {set : SetBinding} {ip : Ipv4} {next : Run σ} (h : WritesLast next) :
      WritesLast (.add group set ip next)
  | write (reply : Message) (result : Except Failure Outcome) :
      WritesLast (.write reply (.done result))

namespace Run.WritesLast

theorem dispatch {query : Message} {next : Option Message → Run σ}
    (h : ∀ answer, (next answer).WritesLast) (timeout : Nat) (servers : List σ) :
    (Run.dispatch timeout query next servers).WritesLast := by
  induction servers with
  | nil => exact h none
  | cons server rest ih =>
    apply WritesLast.ask
    intro reply
    cases reply.answer? timeout with
    | none => exact ih
    | some m => exact h (some m)

theorem addAll {next : Run σ} (h : next.WritesLast) (group : Text) (set : SetBinding)
    (ips : List Ipv4) : (Run.addAll group set next ips).WritesLast := by
  induction ips with
  | nil => exact h
  | cons ip ips ih => exact .add ih

end Run.WritesLast

namespace Resolver

theorem writesLast_finish (request : Message) (key : CacheKey) (g : ServerGroup σ)
    (answer : Option Message) : (finish request key g answer).WritesLast := by
  apply Run.WritesLast.store
  cases answer with
  | none => exact .done _
  | some m =>
    cases g.set with
    | none => exact .write _ _
    | some set => exact (Run.WritesLast.write _ _).addAll g.name set m.ipv4Answers

theorem writesLast_forward (r : Resolver σ) (id : UInt16) (request : Message) (q : Question)
    (key : CacheKey) : (r.forward id request q key).WritesLast := by
  unfold forward
  simp only
  split
  · exact .done _
  next g _ => exact .dispatch (writesLast_finish request key g) r.timeout g.servers

theorem writesLast_run (r : Resolver σ) (id : UInt16) (request : Message) :
    (r.run id request).WritesLast := by
  unfold run
  split
  · exact .done _
  split
  · exact .done _
  split
  · exact .done _
  · exact .write _ _
  · apply Run.WritesLast.lookUp
    intro l
    cases l with
    | hit m => exact .write _ _
    | negative => exact .done _
    | miss => exact r.writesLast_forward id request _ _

end Resolver

/-! ## Addresses of an answer -/

/-- The addresses of the A records in a section, in order and as often as they stand there. -/
inductive Addresses : List Record → List Ipv4 → Prop
  | nil : Addresses [] []
  | address {record : Record} {ip : Ipv4} {records : List Record} {ips : List Ipv4}
      (h : record.data = .ipv4 ip) (hs : Addresses records ips) :
      Addresses (record :: records) (ip :: ips)
  | other {record : Record} {records : List Record} {ips : List Ipv4}
      (h : ∀ ip, record.data ≠ .ipv4 ip) (hs : Addresses records ips) :
      Addresses (record :: records) ips

theorem Addresses.unique {records : List Record} {ips ips' : List Ipv4} (h : Addresses records ips)
    (h' : Addresses records ips') : ips = ips' := by
  induction h generalizing ips' with
  | nil =>
    cases h'
    rfl
  | address hip hs ih =>
    cases h' with
    | address hip' hs' =>
      rw [hip] at hip'
      cases hip'
      rw [ih hs']
    | other hip' hs' => exact absurd hip (hip' _)
  | other hip hs ih =>
    cases h' with
    | address hip' hs' => exact absurd hip' (hip _)
    | other hip' hs' => exact ih hs'

theorem Message.addresses_ipv4Answers (m : Message) : Addresses m.answers m.ipv4Answers := by
  unfold ipv4Answers
  induction m.answers with
  | nil => exact .nil
  | cons record records ih =>
    rw [List.filterMap_cons]
    cases hdata : record.data with
    | ipv4 ip => exact .address hdata ih
    | _ => exact .other (by simp [hdata]) ih

/-! ## Refusals -/

namespace Event

/-- The event as it is when a reply is taken. -/
def offered : Event σ → Event σ
  | wrote reply _ => wrote reply true
  | e => e

/-- The group whose set an address was offered to, the set and the address. -/
def addition? : Event σ → Option (Text × SetBinding × Ipv4)
  | added group set ip => some (group, set, ip)
  | _ => none

/-- Events that are the same but for which replies were taken are the same to all that does not
look at that. -/
theorem filterMap_of_offered {α : Type} {f : Event σ → Option α}
    (hf : ∀ reply taken, f (.wrote reply taken) = f (.wrote reply true)) {es fs : List (Event σ)}
    (h : es.map offered = fs.map offered) : es.filterMap f = fs.filterMap f := by
  have hoffered : f ∘ offered = f := by
    funext e
    cases e with
    | wrote reply taken => exact (hf reply taken).symm
    | _ => rfl
  rw [← hoffered, ← List.filterMap_map, ← List.filterMap_map, h]

end Event

/-- Two ends of a request that differ in nothing but the address sets and in which replies were
taken. -/
structure Isolated (a b : Except Failure Outcome × World σ) : Prop where
  outcome : a.1 = b.1
  cache : a.2.cache = b.2.cache
  /-- Also the queries to servers, what they replied, and the order of all events are the same. -/
  events : a.2.events.map Event.offered = b.2.events.map Event.offered
  called : a.2.events.filterMap Event.asked? = b.2.events.filterMap Event.asked?
  added : a.2.events.filterMap Event.addition? = b.2.events.filterMap Event.addition?
  replied : a.2.events.filterMap Event.wrote? = b.2.events.filterMap Event.wrote?

theorem Isolated.of_events {a b : Except Failure Outcome × World σ} (houtcome : a.1 = b.1)
    (hcache : a.2.cache = b.2.cache)
    (hevents : a.2.events.map Event.offered = b.2.events.map Event.offered) : Isolated a b where
  outcome := houtcome
  cache := hcache
  events := hevents
  called := Event.filterMap_of_offered (fun _ _ => rfl) hevents
  added := Event.filterMap_of_offered (fun _ _ => rfl) hevents
  replied := Event.filterMap_of_offered (fun _ _ => rfl) hevents

/-- What is refused does not matter to a run that writes last: the sets that additions change are
not looked at, and no action comes after a reply. -/
theorem Run.WritesLast.isolated {x : Run σ} (h : x.WritesLast) {envs envs' : Nat → Surroundings σ}
    (henvs : ∀ k, (envs k).reply = (envs' k).reply) (clock : Nat → Nat) {w v : World σ}
    (hcache : w.cache = v.cache) (hevents : w.events = v.events) :
    Isolated (x.execThrough envs clock w) (x.execThrough envs' clock v) := by
  -- Only clock and sets of the worlds may differ; the clock is set anew before each action.
  obtain ⟨cache, now, sets, events⟩ := w
  obtain ⟨cache', now', sets', events'⟩ := v
  obtain rfl : cache = cache' := hcache
  obtain rfl : events = events' := hevents
  induction h generalizing envs envs' clock cache now sets events now' sets' with
  | done result => exact .of_events rfl rfl rfl
  | lookUp h ih => exact ih _ (fun k => henvs (k + 1)) _ _ _ _ _ _ _
  | @ask server query next h ih =>
    have hask : ∀ w : World σ, w.ask (envs 0) server query = w.ask (envs' 0) server query := by
      intro w
      rw [World.ask, World.ask, henvs 0]
    unfold Run.execThrough
    simp only [hask]
    exact ih _ (fun k => henvs (k + 1)) _ _ _ _ _ _ _
  | store h ih => exact ih (fun k => henvs (k + 1)) _ _ _ _ _ _ _
  | add h ih => exact ih (fun k => henvs (k + 1)) _ _ _ _ _ _ _
  | write reply result =>
    refine .of_events rfl rfl ?_
    show (events ++ [_]).map _ = (events ++ [_]).map _
    rw [List.map_append, List.map_append]
    rfl

namespace Resolver

/-! ## Requests -/

/-- The handling of a request while the surroundings change from action to action. -/
def executeThrough (r : Resolver σ) (envs : Nat → Surroundings σ) (clock : Nat → Nat)
    (id : UInt16) (request : Message) (w : World σ) : Except Failure Outcome × World σ :=
  (r.run id request).execThrough envs clock w

theorem executeThrough_const (r : Resolver σ) (env : Surroundings σ) (clock : Nat → Nat)
    (id : UInt16) (request : Message) (w : World σ) :
    r.executeThrough (fun _ => env) clock id request w = r.executeAt env clock id request w :=
  Run.execThrough_const env (r.run id request) clock w

variable {r : Resolver σ} {env : Surroundings σ} {id : UInt16} {request : Message}
  {es : List (Event σ)} {result : Except Failure Outcome} {w w' : World σ} {q : Question}
  {g : ServerGroup σ} {m : Message}

theorem addition?_missed (q : Question) (calls : List (σ × ServerReply)) :
    (missed id request q calls).filterMap Event.addition? = [] :=
  filterMap_missed (fun _ => rfl) (fun _ _ _ => rfl) q calls

theorem addition?_additions (g : ServerGroup σ) (m : Message) :
    (additions g m).filterMap Event.addition? =
      g.set.elim [] fun set => m.ipv4Answers.map (g.name, set, ·) := by
  unfold additions
  cases g.set with
  | none => rfl
  | some set =>
    simp only [Option.elim_some, List.filterMap_map]
    exact congrFun List.filterMap_eq_map m.ipv4Answers

theorem addition?_forwarded (q : Question) (g : ServerGroup σ) (calls : List (σ × ServerReply))
    (m : Message) (taken : Bool) :
    (settled id request q calls (some m) ++
      (additions g m ++ [Event.wrote (Message.stamp request m) taken])).filterMap Event.addition? =
      g.set.elim [] fun set => m.ipv4Answers.map (g.name, set, ·) := by
  rw [settled, List.filterMap_append, List.filterMap_append, List.filterMap_append,
    addition?_missed, addition?_additions]
  exact List.append_nil _

/-- Addresses are offered to the set of the group whose servers were asked, and to no other. -/
theorem group_of_added {calls : List (σ × ServerReply)} {taken : Bool} {group : Text}
    {set : SetBinding} {ip : Ipv4}
    (h : .added group set ip ∈ settled id request q calls (some m) ++
      (additions g m ++ [Event.wrote (Message.stamp request m) taken])) : group = g.name := by
  have haddition : (Event.added group set ip : Event σ).addition? = some (group, set, ip) := rfl
  have hadded := List.mem_filterMap.2 ⟨_, h, haddition⟩
  rw [addition?_forwarded] at hadded
  cases hset : g.set with
  | none => simp [hset] at hadded
  | some set' =>
    simp only [hset, Option.elim_some, List.mem_map, Prod.mk.injEq] at hadded
    obtain ⟨_, -, hname, -⟩ := hadded
    exact hname.symm

/-- What a request does with the message `m` that the servers of the group `g` have for it. -/
structure WritesBack (r : Resolver σ) (env : Surroundings σ) (id : UInt16) (request : Message)
    (w w' : World σ) (q : Question) (g : ServerGroup σ) (m : Message) : Prop where
  admits : r.Admits request q
  group : r.groupFor? q = some g
  /-- The message is that of the first server which gives one in time; it is stored before its
  addresses are added, and then a reply is made of it. -/
  events : ∃ calls taken,
    InOrder r.timeout (env.replies (Message.queryFor q request id)
      (w.events ++ [.lookedUp (CacheKey.of q request.extras) .miss]) g.servers) calls (some m) ∧
    w'.events = w.events ++ (settled id request q calls (some m) ++
      (additions g m ++ [.wrote (Message.stamp request m) taken]))
  /-- Each address of the answer section is offered to the set of the group, with the lifetime that
  is set for it, as often as it stands there and in that order. -/
  added : ∃ ips, Addresses m.answers ips ∧
    (w'.events.drop w.events.length).filterMap Event.addition? =
      g.set.elim [] fun set => ips.map (g.name, set, ·)
  /-- The sets of other groups stay as they are. -/
  sets : w'.sets.filter (·.1 != g.name) = w.sets.filter (·.1 != g.name)

/-- What a request that ends with `result` does to address sets. -/
structure WrittenBack (r : Resolver σ) (env : Surroundings σ) (id : UInt16) (request : Message)
    (w : World σ) (result : Except Failure Outcome) (w' : World σ) : Prop where
  forwarded : ∀ name, result = .ok (.forwarded name) →
    ∃ q g m, g.name = name ∧ WritesBack r env id request w w' q g m
  otherwise : (∀ name, result ≠ .ok (.forwarded name)) →
    (w'.events.drop w.events.length).filterMap Event.addition? = [] ∧ w'.sets = w.sets

theorem WritesBack.of_leadsVia {calls : List (σ × ServerReply)} {taken : Bool}
    (h : r.Admits request q) (hg : r.groupFor? q = some g)
    (hd : Dispatched r.timeout g.servers calls (some m))
    (hl : w.LeadsVia env.reply (settled id request q calls (some m) ++
      (additions g m ++ [.wrote (Message.stamp request m) taken])) w') :
    WritesBack r env id request w w' q g m := by
  refine ⟨h, hg, ⟨calls, taken, ?_, hl.events⟩, ⟨_, m.addresses_ipv4Answers, ?_⟩,
    hl.sets_eq (· != g.name) fun group set ip hmem => ?_⟩
  · rw [settled, List.append_assoc] at hl
    obtain ⟨v, hmissed, -⟩ := hl.split
    cases hmissed with
    | cons henv he hcalls =>
      have hreplies := hcalls.calls_isPrefix hd.map_fst_isPrefix
      rw [World.events_after] at hreplies
      exact .of_dispatched hd hreplies (env.map_fst_replies _ _ _)
  · rw [hl.drop_events, addition?_forwarded]
  · rw [group_of_added hmem]
    exact bne_self_eq_false g.name

theorem Ended.writtenBack (h : Ended r id request es result) (hl : w.LeadsVia env.reply es w') :
    WrittenBack r env id request w result w' := by
  have hnone : es.filterMap Event.addition? = [] →
      (w'.events.drop w.events.length).filterMap Event.addition? = [] ∧ w'.sets = w.sets := by
    intro hes
    rw [hl.drop_events]
    refine ⟨hes, ?_⟩
    have hsets := hl.sets_eq (fun _ => true) fun group set ip hmem => by
      cases List.filterMap_eq_nil_iff.1 hes _ hmem
    simpa using hsets
  cases h with
  | forwarded h hg hd taken =>
    refine ⟨fun name hname => ?_, fun hname => absurd rfl (hname _)⟩
    cases hname
    exact ⟨_, _, _, rfl, .of_leadsVia h hg hd hl⟩
  | refused h => exact ⟨nofun, fun _ => hnone rfl⟩
  | hosts hq h taken => exact ⟨nofun, fun _ => hnone rfl⟩
  | cached h m taken => exact ⟨nofun, fun _ => hnone rfl⟩
  | negative h => exact ⟨nofun, fun _ => hnone rfl⟩
  | unrouted h hg => exact ⟨nofun, fun _ => hnone rfl⟩
  | failed h hg hd =>
    refine ⟨nofun, fun _ => hnone ?_⟩
    rw [settled, List.filterMap_append, addition?_missed]
    rfl

/-- When a request is forwarded each address of the answer is offered to the set of its group, and
no other request offers any.  Which of them the set takes, and whether the client's side takes the
reply, changes nothing else. -/
theorem write_back_isolated (r : Resolver σ) (env : Surroundings σ) (clock : Nat → Nat)
    (id : UInt16) (request : Message) (w : World σ) :
    r.executeThrough (fun _ => env) (fun _ => w.now) id request w = r.execute env id request w ∧
    ∀ (accepts : Nat → SetBinding → Ipv4 → Bool) (takes : Nat → Message → Bool),
      let a := r.executeThrough (env.receiving accepts takes) clock id request w
      WrittenBack r env id request w a.1 a.2 ∧
      ∀ (accepts' : Nat → SetBinding → Ipv4 → Bool) (takes' : Nat → Message → Bool),
        Isolated a (r.executeThrough (env.receiving accepts' takes') clock id request w) := by
  have hreply : ∀ accepts takes k, (env.receiving accepts takes k).reply = env.reply :=
    fun _ _ _ => rfl
  refine ⟨?_, fun accepts takes => ⟨?_, fun accepts' takes' => ?_⟩⟩
  · rw [executeThrough_const, executeAt_const]
  · obtain ⟨es, hl, h⟩ := Run.execThrough_notes Progress.notes (r.run id request)
      (hreply accepts takes) clock w [] (progress_run r id request)
    exact h.ended_of_done.writtenBack hl
  · have hsame : ∀ k, (env.receiving accepts takes k).reply =
        (env.receiving accepts' takes' k).reply := fun _ => rfl
    exact (r.writesLast_run id request).isolated hsame clock rfl rfl

/-- An answer has the address 10.0.0.1 twice and another one and an alias in between.  The addition
after the first one and the reply are refused, and all that is missing is one member of the set. -/
theorem write_back_isolated_repeated :
    let set : SetBinding := ⟨"vpn".toList, 300⟩
    let g : ServerGroup Unit := ⟨cleanGroup, [()], some set⟩
    let r : Resolver Unit := { oneServer with groups := [g] }
    let name : Name := ⟨[[97]], by decide⟩
    let request : Message :=
      { Message.bare (Header.blank 1 false 0) with questions := [⟨name, 1, 1⟩] }
    let answer : Message :=
      { Message.bare (Header.blank 0 true 0) with
        answers := [⟨name, 1, 1, 60, .ipv4 ⟨10, 0, 0, 1⟩⟩, ⟨name, 5, 1, 60, .name name⟩,
          ⟨name, 1, 1, 60, .ipv4 ⟨10, 0, 0, 2⟩⟩, ⟨name, 1, 1, 60, .ipv4 ⟨10, 0, 0, 1⟩⟩] }
    let w : World Unit :=
      { World.fresh .standard with sets := [(cleanGroup, .empty "vpn".toList none)] }
    -- the lookup, the call and the store come before the three additions
    let run (accepts : Nat → Bool) (takes : Bool) : Except Failure Outcome × World Unit :=
      r.executeThrough ((Surroundings.answering answer).receiving (fun k _ _ => accepts k)
        fun _ _ => takes) (fun _ => 0) 7 request w
    let a := run (· != 4) false
    let b := run (fun _ => true) true
    a.1 = .ok (.forwarded cleanGroup) ∧
      a.2.events.filterMap Event.addition? =
        [(cleanGroup, set, ⟨10, 0, 0, 1⟩), (cleanGroup, set, ⟨10, 0, 0, 2⟩),
          (cleanGroup, set, ⟨10, 0, 0, 1⟩)] ∧
      Isolated a b ∧ a.2.sets ≠ b.2.sets := by
  intro set g r name request answer w run a b
  obtain ⟨-, h⟩ := write_back_isolated r (.answering answer) (fun _ => 0) 7 request w
  obtain ⟨hwritten, hisolated⟩ := h (fun k _ _ => k != 4) fun _ _ => false
  refine ⟨rfl, ?_, hisolated _ _, by decide⟩
  obtain ⟨q, g', m, -, hback⟩ := hwritten.forwarded cleanGroup rfl
  obtain ⟨calls, taken, horder, -⟩ := hback.events
  obtain ⟨ips, haddresses, hadded⟩ := hback.added
  cases hback.admits.first
  cases hback.group
  -- the one server gave the answer
  obtain ⟨c, hlast, hgives⟩ := (horder.answered m).1 rfl
  have hc := horder.isPrefix.subset (List.mem_of_getLast? hlast)
  cases List.mem_singleton.1 hc
  cases ServerReply.answer?_eq_some_iff.2 hgives
  cases haddresses.unique answer.addresses_ipv4Answers
  exact hadded

end Resolver

end SplitDns
