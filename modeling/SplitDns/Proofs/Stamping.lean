import SplitDns.Proofs.CacheKey
import SplitDns.Proofs.Effects

/-!
# Replies and the answers they are made of

A reply has its id, operation, questions and recursion bits from its request and all else from the
answer that it is made of (`Message.Stamped`).  What is stored is that answer, not the reply, and
requests with one key have one EDNS section; so a reply from the cache is the reply that was given
when the entry was stored, up to what the two requests say of themselves
(`Message.sameAnswer_stamp`).
-/

namespace SplitDns

variable {σ : Type}

namespace Message

/-! ## Stamped answers -/

/-- What a reply has from its request and what from its answer.  It has an OPT record exactly when
the request has one: that of the answer, or else a copy of the request's. -/
structure Stamped (request answer reply : Message) : Prop where
  id : reply.header.id = request.header.id
  response : reply.header.response = true
  opcode : reply.header.opcode = request.header.opcode
  recursionDesired : reply.header.recursionDesired = request.header.recursionDesired
  recursionAvailable : reply.header.recursionAvailable = true
  questions : reply.questions = request.questions
  edns_none : request.edns = none → reply.edns = none
  edns_own : request.edns ≠ none → answer.edns ≠ none → reply.edns = answer.edns
  edns_echoed : request.edns ≠ none → answer.edns = none → reply.edns = request.edns
  rcode : reply.header.rcode = answer.header.rcode
  authoritative : reply.header.authoritative = answer.header.authoritative
  truncated : reply.header.truncated = answer.header.truncated
  authenticData : reply.header.authenticData = answer.header.authenticData
  checkingDisabled : reply.header.checkingDisabled = answer.header.checkingDisabled
  answers : reply.answers = answer.answers
  authorities : reply.authorities = answer.authorities
  additionals : reply.additionals = answer.additionals

theorem stampEdns_own {request answer : Option Edns} (hr : request ≠ none) (ha : answer ≠ none) :
    stampEdns request answer = answer := by
  obtain ⟨e, rfl⟩ := Option.ne_none_iff_exists'.1 hr
  obtain ⟨e', rfl⟩ := Option.ne_none_iff_exists'.1 ha
  rfl

theorem stampEdns_echoed (request : Option Edns) : stampEdns request none = request := by
  cases request <;> rfl

theorem stamped_stamp (request answer : Message) :
    Stamped request answer (stamp request answer) where
  id := rfl
  response := rfl
  opcode := rfl
  recursionDesired := rfl
  recursionAvailable := rfl
  questions := rfl
  edns_none := fun h => congrArg (stampEdns · answer.edns) h
  edns_own := stampEdns_own
  edns_echoed := fun _ h => (congrArg (stampEdns request.edns) h).trans (stampEdns_echoed _)
  rcode := rfl
  authoritative := rfl
  truncated := rfl
  authenticData := rfl
  checkingDisabled := rfl
  answers := rfl
  authorities := rfl
  additionals := rfl

/-- Whether two replies are the same up to id, operation, recursion desired and questions. -/
def SameAnswer (m n : Message) : Prop :=
  { m with
    header := { m.header with
      id := n.header.id
      opcode := n.header.opcode
      recursionDesired := n.header.recursionDesired }
    questions := n.questions } = n

/-- One answer to two requests with one EDNS section. -/
theorem sameAnswer_stamp {request₁ request₂ : Message} (h : request₁.edns = request₂.edns)
    (answer : Message) : (stamp request₁ answer).SameAnswer (stamp request₂ answer) := by
  simp only [SameAnswer, stamp, h]

end Message

namespace Resolver

variable {r : Resolver σ} {env : Surroundings σ} {id : UInt16} {request : Message}
  {es : List (Event σ)} {w w' : World σ}

/-! ## Answers -/

/-- The answer that a request which ends with an outcome gets: the record of hosts sources, what the
cache holds under its key, or what a server of its group gave. -/
inductive AnswerOf (r : Resolver σ) (id : UInt16) (request : Message) (w : World σ)
    (es : List (Event σ)) : Outcome → Message → Prop
  | hosts {q : Question} {record : Record} (hq : Passes request q)
      (h : r.hostsRecord? q = .ok (some record)) :
      AnswerOf r id request w es .hosts (Message.ofRecord request record)
  | cached {q : Question} {e : CacheEntry} {m : Message} (h : r.Admits request q)
      (hf : w.cache.find? (CacheKey.of q request.extras) = some e) (hlive : w.now < e.expires)
      (hm : e.answer = some m) : AnswerOf r id request w es .cached m
  | forwarded {q : Question} {g : ServerGroup σ} {calls : List (σ × ServerReply)} {m : Message}
      (h : r.Admits request q) (hg : r.groupFor? q = some g)
      (hd : Dispatched r.timeout g.servers calls (some m)) (hes : missed id request q calls ⊆ es) :
      AnswerOf r id request w es (.forwarded g.name) m

theorem wrote?_forwarded (q : Question) (g : ServerGroup σ) (calls : List (σ × ServerReply))
    (m reply : Message) (taken : Bool) :
    (settled id request q calls (some m) ++
      (additions g m ++ [Event.wrote reply taken])).filterMap Event.wrote? = [reply] := by
  rw [settled, List.filterMap_append, List.filterMap_append, List.filterMap_append,
    wrote?_missed, wrote?_additions]
  rfl

theorem usesCache_additions {g : ServerGroup σ} {m : Message} {e : Event σ}
    (h : e ∈ additions g m) : e.usesCache = false := by
  unfold additions at h
  cases hset : g.set with
  | none =>
    rw [hset] at h
    cases h
  | some set =>
    rw [hset] at h
    obtain ⟨ip, -, rfl⟩ := List.mem_map.1 h
    rfl

/-- A request that ends with an answer writes it, stamped, and nothing else. -/
theorem Ended.offers {outcome : Outcome} (h : Ended r id request es (.ok outcome))
    (hl : w.Leads env es w') (ho : outcome ≠ .negativeCached) :
    ∃ answer, AnswerOf r id request w es outcome answer ∧
      es.filterMap Event.wrote? = [Message.stamp request answer] := by
  cases h with
  | hosts hq h taken => exact ⟨_, .hosts hq h, rfl⟩
  | cached h m taken =>
    cases hl with
    | cons he hs =>
      obtain ⟨e, hf, hlive, hm⟩ := Cache.find?_of_get_eq_hit (Eq.symm he)
      exact ⟨m, .cached h hf hlive hm, rfl⟩
  | negative h => exact absurd rfl ho
  | forwarded h hg hd taken =>
    exact ⟨_, .forwarded h hg hd missed_subset, wrote?_forwarded _ _ _ _ _ _⟩

/-- The entry under the key of a request that servers answered is that answer, not stamped. -/
theorem Ended.entry_of_forwarded {name : Text} {q : Question}
    (h : Ended r id request es (.ok (.forwarded name))) (hl : w.Leads env es w')
    (hq : request.questions.head? = some q) :
    ∃ e m, w'.cache.find? (CacheKey.of q request.extras) = some e ∧ e.answer = some m ∧
      es.filterMap Event.wrote? = [Message.stamp request m] := by
  cases h with
  | @forwarded q' g calls m h hg hd taken =>
    have hfirst := h.first
    rw [hq] at hfirst
    cases hfirst
    obtain ⟨u, hstored, htail⟩ := hl.split
    obtain ⟨v, -, hstored⟩ := hstored.split
    have hu : u.cache = v.cache.set v.now (CacheKey.of q request.extras) (some m) := by
      cases hstored with
      | cons he hs =>
        cases hs
        rfl
    have htail : w'.cache = u.cache := htail.cache_eq fun e he => by
      rcases List.mem_append.1 he with he | he
      · exact usesCache_additions he
      · rw [List.mem_singleton.1 he]
        rfl
    have hfind := Cache.find?_set_self v.cache v.now (CacheKey.of q request.extras) (some m)
    rw [← hu, ← htail] at hfind
    exact ⟨_, m, hfind, rfl, wrote?_forwarded _ _ _ _ _ _⟩

theorem Ended.entry_of_cached {q : Question} (h : Ended r id request es (.ok .cached))
    (hl : w.Leads env es w') (hq : request.questions.head? = some q) :
    ∃ e m, w.cache.find? (CacheKey.of q request.extras) = some e ∧ e.answer = some m ∧
      es.filterMap Event.wrote? = [Message.stamp request m] := by
  obtain ⟨m, ha, hwrote⟩ := h.offers hl (by decide)
  cases ha with
  | @cached q' e _ h hf hlive hm =>
    have hfirst := h.first
    rw [hq] at hfirst
    cases hfirst
    exact ⟨e, m, hf, hm, hwrote⟩

/-- A request for which the cache holds an answer that is alive ends with it. -/
theorem execute_of_hit {q : Question} {e : CacheEntry} {m : Message} (h : r.Admits request q)
    (hf : w.cache.find? (CacheKey.of q request.extras) = some e) (hlive : w.now < e.expires)
    (hm : e.answer = some m) : (r.execute env id request w).1 = .ok .cached := by
  have hit : (w.lookUp (CacheKey.of q request.extras)).1 = .hit m := by
    have hget := Cache.get_of_live hf hlive
    rw [hm] at hget
    exact hget
  rw [execute, run_of_admits h, lookUp, Run.exec, hit]
  rfl

/-! ## Replies -/

/-- The replies that the handling of a request offers to the client's side. -/
def offered (r : Resolver σ) (env : Surroundings σ) (id : UInt16) (request : Message)
    (w : World σ) : List Message :=
  ((r.execute env id request w).2.events.drop w.events.length).filterMap Event.wrote?

theorem offered_of_leads (hl : w.Leads env es (r.execute env id request w).2) :
    r.offered env id request w = es.filterMap Event.wrote? := by
  rw [offered, hl.events, List.drop_left]

/-- A request is answered with its answer, stamped, or not at all.  A reply from the cache is that
of the request which the entry was stored for, up to what the requests say of themselves. -/
theorem replies_stamped (r : Resolver σ) :
    (∀ env id request w,
      (∀ outcome, (r.execute env id request w).1 = .ok outcome → outcome ≠ .negativeCached →
        ∃ answer reply,
          AnswerOf r id request w ((r.execute env id request w).2.events.drop w.events.length)
            outcome answer ∧
          r.offered env id request w = [reply] ∧ Message.Stamped request answer reply) ∧
      (replies (r.execute env id request w).1 = false → r.offered env id request w = [])) ∧
    ∀ env₁ id₁ request₁ w₁ env₂ id₂ request₂ w₂ q₁ q₂ group,
      request₁.WellFormed → request₂.WellFormed → request₁.ExtrasFit → request₂.ExtrasFit →
      request₁.questions.head? = some q₁ → request₂.questions.head? = some q₂ →
      CacheKey.of q₁ request₁.extras = CacheKey.of q₂ request₂.extras →
      (r.execute env₁ id₁ request₁ w₁).1 = .ok (.forwarded group) →
      w₂.cache.find? (CacheKey.of q₂ request₂.extras) =
        (r.execute env₁ id₁ request₁ w₁).2.cache.find? (CacheKey.of q₁ request₁.extras) →
      (r.execute env₂ id₂ request₂ w₂).1 = .ok .cached →
      ∃ reply₁ reply₂, r.offered env₁ id₁ request₁ w₁ = [reply₁] ∧
        r.offered env₂ id₂ request₂ w₂ = [reply₂] ∧ reply₁.SameAnswer reply₂ := by
  refine ⟨fun env id request w => ?_, ?_⟩
  · obtain ⟨es, hl, h⟩ := execute_ended r env id request w
    rw [offered_of_leads hl, hl.events, List.drop_left]
    refine ⟨fun outcome ho hne => ?_, fun hnone => ?_⟩
    · rw [ho] at h
      obtain ⟨answer, ha, hwrote⟩ := h.offers hl hne
      exact ⟨answer, _, ha, hwrote, Message.stamped_stamp request answer⟩
    · have hlen := h.replied
      rw [hnone] at hlen
      exact List.length_eq_zero_iff.1 hlen
  · intro env₁ id₁ request₁ w₁ env₂ id₂ request₂ w₂ q₁ q₂ group hw₁ hw₂ hf₁ hf₂ hq₁ hq₂ hkey
      hforwarded hentry hcached
    obtain ⟨es₁, hl₁, h₁⟩ := execute_ended r env₁ id₁ request₁ w₁
    obtain ⟨es₂, hl₂, h₂⟩ := execute_ended r env₂ id₂ request₂ w₂
    rw [hforwarded] at h₁
    rw [hcached] at h₂
    obtain ⟨e₁, m₁, hfind₁, hm₁, hwrote₁⟩ := h₁.entry_of_forwarded hl₁ hq₁
    obtain ⟨e₂, m₂, hfind₂, hm₂, hwrote₂⟩ := h₂.entry_of_cached hl₂ hq₂
    have hm : m₁ = m₂ := by
      rw [hentry, hfind₁] at hfind₂
      cases hfind₂
      rw [hm₁] at hm₂
      exact Option.some.inj hm₂
    obtain ⟨-, -, hedns⟩ := CacheKey.parts_of_eq hw₁ hw₂ hf₁ hf₂ hkey
    refine ⟨_, _, (offered_of_leads hl₁).trans hwrote₁, (offered_of_leads hl₂).trans hwrote₂, ?_⟩
    rw [hm]
    exact Message.sameAnswer_stamp hedns m₂

/-- Two requests for `A.` and `a.` with EDNS, of which the second is answered from the cache; the
server's answer has no OPT record, so each reply repeats that of its request. -/
theorem replies_stamped_letter_case :
    let edns : Edns := ⟨1232, 0, 0, 0, []⟩
    let request₁ : Message :=
      { Message.bare { Header.blank 1 false 0 with recursionDesired := true } with
        questions := [⟨⟨[[65]], by decide⟩, 1, 1⟩]
        edns := some edns }
    let request₂ : Message :=
      { Message.bare (Header.blank 2 false 0) with
        questions := [⟨⟨[[97]], by decide⟩, 1, 1⟩]
        edns := some edns }
    let answer : Message := Message.bare { Header.blank 1 true 0 with authoritative := true }
    let env : Surroundings Unit := .answering answer
    let w : World Unit := (oneServer.execute env 7 request₁ (.fresh .standard)).2
    (oneServer.execute env 7 request₁ (.fresh .standard)).1 = .ok (.forwarded cleanGroup) ∧
      (oneServer.execute env 8 request₂ w).1 = .ok .cached ∧
      ∃ reply₁ reply₂, oneServer.offered env 7 request₁ (.fresh .standard) = [reply₁] ∧
        oneServer.offered env 8 request₂ w = [reply₂] ∧ reply₁.SameAnswer reply₂ := by
  intro edns request₁ request₂ answer env w
  have hedns : edns.WellFormed := by decide
  have hw₁ : request₁.WellFormed := by constructor <;> simp [request₁, Message.bare, hedns]
  have hw₂ : request₂.WellFormed := by constructor <;> simp [request₂, Message.bare, hedns]
  have hf₁ : request₁.ExtrasFit := by decide
  have hf₂ : request₂.ExtrasFit := by decide
  have hkey : CacheKey.of ⟨⟨[[65]], by decide⟩, 1, 1⟩ request₁.extras =
      CacheKey.of ⟨⟨[[97]], by decide⟩, 1, 1⟩ request₂.extras := by decide
  have hforwarded : (oneServer.execute env 7 request₁ (.fresh .standard)).1 =
      .ok (.forwarded cleanGroup) := rfl
  have hentry := Cache.find?_set_self (Cache.empty .standard) 0
    (CacheKey.of ⟨⟨[[65]], by decide⟩, 1, 1⟩ request₁.extras) (some answer)
  rw [hkey] at hentry
  have hcached : (oneServer.execute env 8 request₂ w).1 = .ok .cached :=
    execute_of_hit ⟨⟨rfl, by decide⟩, rfl⟩ hentry (by decide) rfl
  exact ⟨hforwarded, hcached, (replies_stamped oneServer).2 env 7 request₁ (.fresh .standard) env 8
    request₂ w _ _ cleanGroup hw₁ hw₂ hf₁ hf₂ rfl rfl hkey hforwarded (by rw [hkey]) hcached⟩

end Resolver

end SplitDns
