import Mathlib.Data.List.Basic
import SplitDns.Proofs.Effects

/-!
# Falling back from server to server

What the servers of a group would reply, were they asked one after the other, is a list that does
not depend on where asking stops (`Surroundings.replies`).  The servers that a request really asks
are those up to the first one that gives a message in time (`InOrder`), and the whole of it depends
only on what the query says (`Resolver.falls_back_in_order`).
-/

namespace SplitDns

variable {σ : Type}

/-! ## One reply -/

/-- A reply that comes within the time for a server and has a message: a response, or what came
of one before the call failed. -/
structure ServerReply.Gives (timeout : Nat) (reply : ServerReply) (m : Message) : Prop where
  inTime : ∃ delay, reply.delay = some delay ∧ delay ≤ timeout
  given : reply.result = .ok m ∨ ∃ cause, reply.result = .error ⟨cause, some m⟩

theorem ServerReply.inTime_iff {timeout : Nat} {reply : ServerReply} :
    reply.inTime timeout = true ↔ ∃ delay, reply.delay = some delay ∧ delay ≤ timeout := by
  simp [inTime, Option.any_eq_true]

theorem ServerReply.answer?_eq_some_iff {timeout : Nat} {reply : ServerReply} {m : Message} :
    reply.answer? timeout = some m ↔ reply.Gives timeout m := by
  unfold answer?
  split
  next hin =>
    rw [inTime_iff] at hin
    cases hr : reply.result with
    | ok m' =>
      constructor
      · intro h
        cases h
        exact ⟨hin, .inl hr⟩
      · rintro ⟨-, h | ⟨cause, h⟩⟩ <;> rw [hr] at h <;> cases h
        rfl
    | error f =>
      constructor
      · intro h
        obtain ⟨cause, part⟩ := f
        cases h
        exact ⟨hin, .inr ⟨cause, hr⟩⟩
      · rintro ⟨-, h | ⟨cause, h⟩⟩ <;> rw [hr] at h <;> cases h
        rfl
  next hlate =>
    exact iff_of_false nofun fun h => hlate (inTime_iff.2 h.inTime)

theorem ServerReply.answer?_eq_none_iff {timeout : Nat} {reply : ServerReply} :
    reply.answer? timeout = none ↔ ∀ m, ¬ reply.Gives timeout m := by
  simp only [Option.eq_none_iff_forall_ne_some, ne_eq, answer?_eq_some_iff]

/-! ## All replies -/

/-- What servers reply to a query when all of them are asked, one after the other. -/
def Surroundings.replies (env : Surroundings σ) (query : Message) :
    List (Event σ) → List σ → List (σ × ServerReply)
  | _, [] => []
  | events, server :: rest =>
    let reply := env.reply events server query
    (server, reply) :: env.replies query (events ++ [.asked server query reply]) rest

theorem Surroundings.map_fst_replies (env : Surroundings σ) (query : Message)
    (events : List (Event σ)) (servers : List σ) :
    (env.replies query events servers).map (·.1) = servers := by
  induction servers generalizing events with
  | nil => rfl
  | cons server rest ih => exact congrArg (server :: ·) (ih _)

/-- Calls that happen one after the other have the replies that all servers would give. -/
theorem World.Leads.calls_isPrefix {env : Surroundings σ} {query : Message} {w w' : World σ}
    {calls : List (σ × ServerReply)} {servers : List σ}
    (h : w.Leads env (calls.map fun c => .asked c.1 query c.2) w')
    (hservers : calls.map (·.1) <+: servers) :
    calls <+: env.replies query w.events servers := by
  induction calls generalizing w servers with
  | nil => exact List.nil_prefix
  | cons c calls ih =>
    obtain ⟨rest, rfl⟩ := hservers
    cases h with
    | cons hc h =>
      have hrest := ih h (List.prefix_append _ rest)
      obtain ⟨server, reply⟩ := c
      obtain rfl : reply = env.reply w.events server query := hc
      exact List.cons_prefix_cons.2 ⟨rfl, hrest⟩

/-- Of the replies `plan` of all servers in order, `calls` are asked for: those up to the first one
that gives a message in time, which is the answer. -/
structure InOrder (timeout : Nat) (plan calls : List (σ × ServerReply)) (answer : Option Message) :
    Prop where
  isPrefix : calls <+: plan
  /-- No server before the last one called gives a message. -/
  failed : ∀ c ∈ calls.dropLast, ∀ m, ¬ c.2.Gives timeout m
  /-- The answer is what the last one called gives. -/
  answered : ∀ m, answer = some m ↔ ∃ c ∈ calls.getLast?, c.2.Gives timeout m
  /-- There is no answer exactly when no server of the group gives one. -/
  unanswered : answer = none ↔ ∀ c ∈ plan, ∀ m, ¬ c.2.Gives timeout m
  /-- All servers are called before there is no answer. -/
  exhausted : answer = none → calls = plan

namespace InOrder

variable {timeout : Nat} {plan calls calls' : List (σ × ServerReply)} {answer : Option Message}
  {c : σ × ServerReply}

theorem nil : InOrder timeout ([] : List (σ × ServerReply)) [] none where
  isPrefix := List.nil_prefix
  failed c hc := by cases hc
  answered := by simp
  unanswered := by simp
  exhausted _ := rfl

theorem single {m : Message} (h : c.2.Gives timeout m) :
    InOrder timeout (c :: plan) [c] (some m) where
  isPrefix := ⟨plan, rfl⟩
  failed d hd := by cases hd
  answered m' := by
    have hm := ServerReply.answer?_eq_some_iff.2 h
    simp [← ServerReply.answer?_eq_some_iff, hm]
  unanswered := by
    constructor
    · intro hnone
      cases hnone
    · intro hnone
      exact absurd h (hnone c List.mem_cons_self m)
  exhausted hnone := by cases hnone

theorem cons (hc : ∀ m, ¬ c.2.Gives timeout m) (h : InOrder timeout plan calls answer) :
    InOrder timeout (c :: plan) (c :: calls) answer where
  isPrefix := List.cons_prefix_cons.2 ⟨rfl, h.isPrefix⟩
  failed := by
    cases calls with
    | nil => simp
    | cons d calls => exact List.forall_mem_cons.2 ⟨hc, h.failed⟩
  answered := by
    cases calls with
    | nil => simpa [hc] using h.answered
    | cons d calls => exact h.answered
  unanswered := by rw [h.unanswered, List.forall_mem_cons, and_iff_right hc]
  exhausted hnone := congrArg (c :: ·) (h.exhausted hnone)

theorem of_dispatched {servers : List σ} (hd : Dispatched timeout servers calls answer)
    (hcalls : calls <+: plan) (hplan : plan.map (·.1) = servers) :
    InOrder timeout plan calls answer := by
  induction hd generalizing plan with
  | exhausted =>
    rw [List.map_eq_nil_iff.1 hplan]
    exact .nil
  | answered h =>
    obtain ⟨plan, rfl⟩ := hcalls
    exact .single (ServerReply.answer?_eq_some_iff.1 h)
  | failed h hrest ih =>
    obtain ⟨plan, rfl⟩ := hcalls
    exact .cons (ServerReply.answer?_eq_none_iff.1 h)
      (ih (List.prefix_append _ plan) (List.cons.inj hplan).2)

theorem eq_of_isPrefix {m m' : Message} (h : InOrder timeout plan calls (some m))
    (h' : InOrder timeout plan calls' (some m')) (hle : calls <+: calls') : calls = calls' := by
  obtain ⟨c, hc, hgives⟩ := (h.answered m).1 rfl
  obtain ⟨c', hc', -⟩ := (h'.answered m').1 rfl
  rw [← List.dropLast_append_getLast? c' hc', List.prefix_concat_iff] at hle
  rcases hle with heq | hle
  · rw [heq, List.dropLast_append_getLast? c' hc']
  · -- Else the last server of the shorter list, which gives a message, is one that failed.
    exact absurd hgives (h'.failed c (hle.subset (List.mem_of_getLast? hc)) m)

/-- Where asking stops, and with what, is settled by the replies of all servers. -/
theorem unique {answer' : Option Message} (h : InOrder timeout plan calls answer)
    (h' : InOrder timeout plan calls' answer') : calls = calls' ∧ answer = answer' := by
  have hnone : answer = none ↔ answer' = none := h.unanswered.trans h'.unanswered.symm
  cases answer with
  | none =>
    have hnone' := hnone.1 rfl
    exact ⟨(h.exhausted rfl).trans (h'.exhausted hnone').symm, hnone'.symm⟩
  | some m =>
    cases answer' with
    | none => cases hnone.2 rfl
    | some m' =>
      have hcalls : calls = calls' := by
        rcases List.prefix_or_prefix_of_prefix h.isPrefix h'.isPrefix with hle | hle
        · exact h.eq_of_isPrefix h' hle
        · exact (h'.eq_of_isPrefix h hle).symm
      refine ⟨hcalls, ?_⟩
      have hm := (h.answered m).1 rfl
      rw [hcalls] at hm
      exact ((h'.answered m).2 hm).symm

end InOrder

/-! ## Requests -/

/-- What a query to servers says: the question, and of the request nothing but its additional
records and its EDNS section. -/
structure Message.Asks (query : Message) (q : Question) (request : Message) : Prop where
  questions : query.questions = [q]
  response : query.header.response = false
  opcode : query.header.opcode = 0
  recursionDesired : query.header.recursionDesired = true
  additionals : query.additionals = request.additionals
  edns : query.edns = request.edns
  answers : query.answers = []
  authorities : query.authorities = []

theorem Message.asks_queryFor (q : Question) (request : Message) (id : UInt16) :
    (queryFor q request id).Asks q request :=
  ⟨rfl, rfl, rfl, rfl, rfl, rfl, rfl, rfl⟩

namespace Resolver

variable {r : Resolver σ} {env : Surroundings σ} {id : UInt16} {request request' : Message}
  {q : Question} {g : ServerGroup σ} {w : World σ}

/-- The calls of a request, in order: the servers and what they were sent. -/
def asked (r : Resolver σ) (env : Surroundings σ) (id : UInt16) (request : Message) (w : World σ) :
    List (σ × Message) :=
  ((r.execute env id request w).2.events.drop w.events.length).filterMap Event.asked?

theorem Admits.of_head (h : r.Admits request q)
    (hhead : request'.questions.head? = request.questions.head?) : r.Admits request' q :=
  ⟨⟨hhead.trans h.first, h.guard⟩, h.hosts⟩

/-- When the cache has nothing for a request that hosts sources have nothing for, its run notes
that. -/
theorem Ended.misses {es : List (Event σ)} {result : Except Failure Outcome} {w' : World σ}
    (h : Ended r id request es result) (hl : w.Leads env es w') (ha : r.Admits request q)
    (hg : r.groupFor? q = some g)
    (hmiss : (w.lookUp (CacheKey.of q request.extras)).1 = .miss) :
    Misses r request es q g := by
  have hfirst : ∀ {q'}, r.Admits request q' → q' = q := fun h' =>
    Option.some.inj (h'.first.symm.trans ha.first)
  have hrun : r.run id request = r.lookUp id request q := run_of_admits ha
  refine ⟨ha.first, ?_, hg⟩
  cases h with
  | refused h => rw [run_of_refuses h] at hrun; cases hrun
  | hosts hq h taken => rw [run_of_found hq h] at hrun; cases hrun
  | cached h m taken =>
    obtain rfl := hfirst h
    cases hl with
    | cons he hl => cases he.trans hmiss
  | negative h =>
    obtain rfl := hfirst h
    cases hl with
    | cons he hl => cases he.trans hmiss
  | unrouted h hg' => obtain rfl := hfirst h; exact List.mem_cons_self
  | failed h hg' hd => obtain rfl := hfirst h; simp [settled, missed]
  | forwarded h hg' hd taken => obtain rfl := hfirst h; simp [settled, missed]

theorem asked?_missed (calls : List (σ × ServerReply)) :
    (missed id request q calls).filterMap Event.asked? =
      calls.map fun c => (c.1, Message.queryFor q request id) := by
  rw [missed, List.filterMap_cons_none rfl, List.filterMap_map]
  exact congrFun List.filterMap_eq_map calls

/-- How a request goes to the servers of a group: `calls` are made, and `answer` is what comes of
them. -/
structure FallsBack (r : Resolver σ) (env : Surroundings σ) (id : UInt16) (request : Message)
    (w : World σ) (q : Question) (g : ServerGroup σ) (calls : List (σ × ServerReply))
    (answer : Option Message) : Prop where
  inOrder : InOrder r.timeout
    (env.replies (Message.queryFor q request id)
      (w.events ++ [.lookedUp (CacheKey.of q request.extras) .miss]) g.servers) calls answer
  /-- Each server called is called once and with one and the same query. -/
  asked : r.asked env id request w = calls.map fun c => (c.1, Message.queryFor q request id)
  stored : ((r.execute env id request w).2.events.drop w.events.length).filterMap Event.stored? =
    [(CacheKey.of q request.extras, answer)]
  failed : answer = none ↔
    ∃ name, (r.execute env id request w).1 = .error (.allServersFailed name)

theorem exists_fallsBack (env : Surroundings σ) (id : UInt16) (h : r.Admits request q)
    (hmiss : (w.lookUp (CacheKey.of q request.extras)).1 = .miss) (hg : r.groupFor? q = some g) :
    ∃ calls answer, r.FallsBack env id request w q g calls answer := by
  obtain ⟨es, hl, hended⟩ := execute_ended r env id request w
  obtain ⟨calls, answer, tail, hes, hd, hservers, htail, hstored, hnone⟩ :=
    hended.stored q g (hended.misses hl h hg hmiss)
  have hdrop : (r.execute env id request w).2.events.drop w.events.length = es := by
    rw [hl.events, List.drop_left]
  refine ⟨calls, answer, ?_, ?_, by rw [hdrop, hstored], hnone⟩
  · rw [hes] at hl
    cases hl with
    | cons he hl =>
      obtain ⟨v, hcalls, -⟩ := hl.split
      have hreplies := hcalls.calls_isPrefix hservers
      rw [World.events_after] at hreplies
      exact .of_dispatched hd hreplies (env.map_fst_replies _ _ _)
  · rw [Resolver.asked, hdrop, hes, List.filterMap_append, asked?_missed,
      List.filterMap_cons_none rfl, htail, List.append_nil]

/-- A request that the cache has nothing for goes to the servers of its group in order, up to the
first one that gives a message in time.  The query is made of the first question, the additional
records and the EDNS section, and requests that agree on these lead to the same calls. -/
theorem falls_back_in_order (r : Resolver σ) (env : Surroundings σ) (id : UInt16)
    (request : Message) (w : World σ) {q : Question} {g : ServerGroup σ} (h : r.Admits request q)
    (hmiss : (w.lookUp (CacheKey.of q request.extras)).1 = .miss) (hg : r.groupFor? q = some g) :
    (∃ calls answer, r.FallsBack env id request w q g calls answer) ∧
      (Message.queryFor q request id).Asks q request ∧
      ∀ request' : Message, request'.questions.head? = request.questions.head? →
        request'.additionals = request.additionals → request'.edns = request.edns →
        r.asked env id request' w = r.asked env id request w := by
  refine ⟨exists_fallsBack env id h hmiss hg, Message.asks_queryFor q request id, ?_⟩
  intro request' hhead hadditionals hedns
  have hextras : request'.extras = request.extras := by
    rw [Message.extras, Message.extras, hadditionals, hedns]
  have hquery : Message.queryFor q request' id = Message.queryFor q request id := by
    rw [Message.queryFor, Message.queryFor, hadditionals, hedns]
  -- Both requests have the same replies of all servers before them, so they stop at the same one.
  obtain ⟨calls, answer, hcalls⟩ := exists_fallsBack env id h hmiss hg
  obtain ⟨calls', answer', hcalls'⟩ :=
    exists_fallsBack env id (h.of_head hhead) (hextras ▸ hmiss) hg
  have hplan := hcalls'.inOrder
  rw [hquery, hextras] at hplan
  rw [hcalls.asked, hcalls'.asked, hquery, (hcalls.inOrder.unique hplan).1]

/-- Of four servers, known by what they reply, the first is late, the second fails, the third fails
with a truncated message and the last one is not called; so it goes for any request with the same
first question. -/
theorem falls_back_in_order_truncated :
    let q : Question := ⟨⟨[[65]], by decide⟩, 1, 1⟩
    let request : Message := { Message.bare (Header.blank 1 false 0) with questions := [q] }
    let request' : Message := { Message.bare (Header.blank 2 false 4) with questions := [q, q] }
    let part : Message := Message.bare { Header.blank 7 true 0 with truncated := true }
    let late : ServerReply := ⟨some 2001, .ok part⟩
    let failing : ServerReply := ⟨some 5, .error ⟨.transport "reset", none⟩⟩
    let truncated : ServerReply := ⟨some 2000, .error ⟨.truncated "server", some part⟩⟩
    let g : ServerGroup ServerReply := ⟨cleanGroup, [late, failing, truncated, late], none⟩
    let r : Resolver ServerReply := ⟨⟨[], [], none⟩, [g], [], 2000⟩
    let env : Surroundings ServerReply := ⟨fun _ reply _ => reply, fun _ _ => true, fun _ => true⟩
    r.asked env 7 request (.fresh .standard) =
        [late, failing, truncated].map (·, Message.queryFor q request 7) ∧
      (∃ calls answer, r.FallsBack env 7 request (.fresh .standard) q g calls answer) ∧
      (Message.queryFor q request 7).Asks q request ∧
      r.asked env 7 request' (.fresh .standard) = r.asked env 7 request (.fresh .standard) := by
  intro q request request' part late failing truncated g r env
  have hadmits : r.Admits request q := ⟨⟨rfl, by decide⟩, rfl⟩
  obtain ⟨hcalls, hasks, hagree⟩ :=
    falls_back_in_order r env 7 request (.fresh .standard) hadmits rfl rfl
  exact ⟨rfl, hcalls, hasks, hagree request' rfl rfl rfl⟩

end Resolver

end SplitDns
