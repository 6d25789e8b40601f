import SplitDns.Proofs.CacheKey
import SplitDns.Proofs.Lockstep
import SplitDns.Proofs.NameSpelling

/-!
# Requests in other spellings

Once two spellings of a name have passed the loop guard they fare alike: hosts tables, the cache and
the router tell them apart no more than servers do.  Two such requests end alike, and their events
correspond one by one (`Resolver.respelled_alike`).  Time may pass while they are handled; without
that they are handled by `Resolver.execute` (`Resolver.executeAt_const`).
-/

namespace SplitDns

variable {σ : Type}

namespace Message

/-- A message with a name in its first question. -/
def asking (m : Message) (q : Question) (rest : List Question) (n : Name) : Message :=
  { m with questions := { q with name := n } :: rest }

/-- The query to servers for such a message. -/
def queryAsking (m : Message) (q : Question) (rest : List Question) (n : Name) (id : UInt16) :
    Message :=
  queryFor { q with name := n } (m.asking q rest n) id

/-- Whether messages are the same up to their questions. -/
def SameButQuestions (m n : Message) : Prop :=
  { m with questions := n.questions } = n

/-- Whether messages are the same up to their questions and to the letter case of the owners of
their answers. -/
def SameButOwners (m n : Message) : Prop :=
  { m with questions := n.questions, answers := m.answers.map Record.lowerOwner } =
    { n with answers := n.answers.map Record.lowerOwner }

theorem SameButQuestions.sameButOwners {m n : Message} (h : m.SameButQuestions n) :
    m.SameButOwners n := by
  unfold SameButOwners
  rw [← h]

end Message

/-- Events that are the same up to ids and letter case of queries and to what replies say; servers
give the same answers in time. -/
inductive Event.Alike (timeout : Nat) (same : Message → Message → Prop) :
    Event σ → Event σ → Prop
  | lookedUp (key : CacheKey) (result : Lookup) :
      Alike timeout same (.lookedUp key result) (.lookedUp key result)
  | asked (server : σ) {p q : Message} {a b : ServerReply} (hq : p.Alike q)
      (hab : a.answer? timeout = b.answer? timeout) :
      Alike timeout same (.asked server p a) (.asked server q b)
  | stored (key : CacheKey) (answer : Option Message) :
      Alike timeout same (.stored key answer) (.stored key answer)
  | added (group : Text) (set : SetBinding) (ip : Ipv4) :
      Alike timeout same (.added group set ip) (.added group set ip)
  | wrote {m n : Message} (h : same m n) (a b : Bool) :
      Alike timeout same (.wrote m a) (.wrote n b)

theorem Event.Alike.mono {timeout : Nat} {same same' : Message → Message → Prop} {a b : Event σ}
    (h : Alike timeout same a b) (hsame : ∀ {m n}, same m n → same' m n) :
    Alike timeout same' a b := by
  cases h with
  | lookedUp key result => exact .lookedUp key result
  | asked server hq hab => exact .asked server hq hab
  | stored key answer => exact .stored key answer
  | added group set ip => exact .added group set ip
  | wrote h a b => exact .wrote (hsame h) a b

/-- Whether servers give the same answers in time to two queries, whatever happened alike since some
events. -/
def Surroundings.AnswersAlike (env : Surroundings σ) (timeout : Nat) (es : List (Event σ))
    (p q : Message) : Prop :=
  ∀ es₁ es₂ server, List.Forall₂ (Event.Alike timeout Message.SameButQuestions) es₁ es₂ →
    (env.reply (es ++ es₁) server p).answer? timeout =
      (env.reply (es ++ es₂) server q).answer? timeout

/-- Ends that are the same, or both faults of a record from hosts tables. -/
def EndsAlike (a b : Except Failure Outcome) : Prop :=
  a = b ∨ ∃ e f : HostRecord.Fault, a = .error e.failure ∧ b = .error f.failure

/-- Two queries in place of each other; ends are the same, and replies up to their questions. -/
def Likeness.respelled (p q : Message) : Likeness where
  ends := Eq
  queries p' q' := p' = p ∧ q' = q
  replies := Message.SameButQuestions

/-- Worlds with one cache and the same sets in which the same happened since some events. -/
structure World.Alike (timeout : Nat) (es : List (Event σ)) (w₁ w₂ : World σ) : Prop where
  cache : w₁.cache = w₂.cache
  sets : w₁.sets = w₂.sets
  since : Event.Since (Event.Alike timeout Message.SameButQuestions) es es w₁.events w₂.events

/-- What two requests come to that fare alike from a world on. -/
structure FareAlike (timeout : Nat) (w : World σ) (x y : Except Failure Outcome × World σ) : Prop
    where
  ends : EndsAlike x.1 y.1
  cache : x.2.cache = y.2.cache
  sets : x.2.sets = y.2.sets
  /-- Only hosts tables show the letter case of names in answers. -/
  events : ∃ es₁ es₂, x.2.events = w.events ++ es₁ ∧ y.2.events = w.events ++ es₂ ∧
    List.Forall₂ (Event.Alike timeout Message.SameButOwners) es₁ es₂ ∧
    (x.1 ≠ .ok .hosts → List.Forall₂ (Event.Alike timeout Message.SameButQuestions) es₁ es₂)

namespace Resolver

/-- Steps of runs that ask two queries in place of each other keep worlds alike. -/
theorem keeps_alike {env : Surroundings σ} {timeout : Nat} {es : List (Event σ)} {p q : Message}
    (hpq : p.Alike q) (h : env.AnswersAlike timeout es p q) (key : CacheKey) :
    Run.Keeps (.respelled p q) timeout key env env (World.Alike timeout es) where
  lookUp := fun {w₁ w₂} now hw => by
    have hget : (w₁.cache.get now key).1 = (w₂.cache.get now key).1 := by rw [hw.cache]
    have hevent : Event.Alike (σ := σ) timeout Message.SameButQuestions
        (.lookedUp key (w₁.cache.get now key).1) (.lookedUp key (w₂.cache.get now key).1) :=
      hget ▸ .lookedUp key _
    exact ⟨hget, congrArg (fun c => (c.get now key).2) hw.cache, hw.sets, hw.since.snoc hevent⟩
  ask := fun {w₁ w₂} now server p' q' hw ⟨hp, hq⟩ => by
    have hanswer : (env.reply w₁.events server p).answer? timeout =
        (env.reply w₂.events server q).answer? timeout := by
      obtain ⟨es₁, es₂, he₁, he₂, hes⟩ := hw.since
      rw [he₁, he₂]
      exact h es₁ es₂ server hes
    subst hp hq
    exact ⟨hanswer, hw.cache, hw.sets, hw.since.snoc (.asked server hpq hanswer)⟩
  store := fun now answer hw =>
    ⟨congrArg (fun c => c.set now key answer) hw.cache, hw.sets, hw.since.snoc (.stored key answer)⟩
  add := fun {w₁ w₂} now group set ip hw => by
    have hsets : (if env.accepts set ip then w₁.sets.map (World.addTo now group set ip)
          else w₁.sets) =
        if env.accepts set ip then w₂.sets.map (World.addTo now group set ip) else w₂.sets := by
      rw [hw.sets]
    exact ⟨hw.cache, hsets, hw.since.snoc (.added group set ip)⟩
  write := fun now m n hw hm => ⟨hw.cache, hw.sets, hw.since.snoc (.wrote hm _ _)⟩

variable {r : Resolver σ} {env : Surroundings σ} {clock : Nat → Nat} {w : World σ}
  {id₁ id₂ : UInt16} {request : Message} {q : Question} {rest : List Question} {n₁ n₂ : Name}

theorem queryAsking_alike (h : n₁.lower = n₂.lower) :
    (request.queryAsking q rest n₁ id₁).Alike (request.queryAsking q rest n₂ id₂) := by
  refine ⟨?_, rfl⟩
  simp only [Message.queryAsking, Message.queryFor, List.map_cons, List.map_nil, Question.lower, h]

/-- Spellings of a name for which hosts tables have nothing fare alike. -/
theorem lookUp_respelled (h : n₁.lower = n₂.lower)
    (hanswers : env.AnswersAlike r.timeout w.events (request.queryAsking q rest n₁ id₁)
      (request.queryAsking q rest n₂ id₂)) :
    FareAlike r.timeout w
      ((r.lookUp id₁ (request.asking q rest n₁) { q with name := n₁ }).execAt env clock w)
      ((r.lookUp id₂ (request.asking q rest n₂) { q with name := n₂ }).execAt env clock w) := by
  have htext := Name.lower_text_eq_iff.2 h
  have hkey : CacheKey.of { q with name := n₁ } (request.asking q rest n₁).extras =
      CacheKey.of { q with name := n₂ } (request.asking q rest n₂).extras := by
    simp only [CacheKey.of, htext]
    rfl
  have hroute : r.router.resolve n₁.text = r.router.resolve n₂.text := by
    rw [← r.router.resolve_lower, htext, r.router.resolve_lower]
  have halike : Run.Alike
      (.respelled (request.queryAsking q rest n₁ id₁) (request.queryAsking q rest n₂ id₂)) r.timeout
      (CacheKey.of { q with name := n₂ } (request.asking q rest n₂).extras)
      (r.lookUp id₁ (request.asking q rest n₁) { q with name := n₁ })
      (r.lookUp id₂ (request.asking q rest n₂) { q with name := n₂ }) :=
    alike_lookUp (fun _ => rfl) (fun _ => rfl) ⟨rfl, rfl⟩ hkey hroute
  obtain ⟨hends, hcache, hsets, es₁, es₂, he₁, he₂, hes⟩ := halike.execAt
    (keeps_alike (queryAsking_alike h) hanswers _) clock ⟨rfl, rfl, .start _ w.events w.events⟩
  exact ⟨.inl hends, hcache, hsets, es₁, es₂, he₁, he₂,
    hes.imp fun a b hab => hab.mono Message.SameButQuestions.sameButOwners, fun _ => hes⟩

/-- The records of hosts tables for spellings of a name make replies that fare alike. -/
theorem write_respelled {a b : Record} (h : a.lowerOwner = b.lowerOwner) :
    FareAlike r.timeout w
      ((Run.write (Message.stamp (request.asking q rest n₁)
        (Message.ofRecord (request.asking q rest n₁) a)) (.done (.ok .hosts))).execAt env clock w)
      ((Run.write (Message.stamp (request.asking q rest n₂)
        (Message.ofRecord (request.asking q rest n₂) b)) (.done (.ok .hosts))).execAt env clock
        w) := by
  refine ⟨.inl rfl, rfl, rfl, [.wrote _ _], [.wrote _ _], rfl, rfl, .cons (.wrote ?_ _ _) .nil,
    fun hne => absurd rfl hne⟩
  show Message.SameButOwners _ _
  simp only [Message.SameButOwners, Message.stamp, Message.ofRecord, List.map_cons, h]
  rfl

/-- Requests for two spellings of a name that both pass the loop guard fare alike, with hosts tables
as sources and servers that give both the same answers: they end alike, the router is consulted
alike, cache and sets are left the same, and what they do corresponds one by one.  Replies differ in
their questions, and those from hosts tables in the letter case of the owner. -/
theorem respelled_alike (r : Resolver σ) {tables : List HostsTable}
    (hr : r.hosts = tables.map HostsTable.source) (env : Surroundings σ) (clock : Nat → Nat)
    (w : World σ) (id₁ id₂ : UInt16) (request : Message) (q : Question) (rest : List Question)
    {n₁ n₂ : Name} (h : n₁.lower = n₂.lower) (h₁ : Domain.isLooping n₁.text = false)
    (h₂ : Domain.isLooping n₂.text = false)
    (hanswers : env.AnswersAlike r.timeout w.events (request.queryAsking q rest n₁ id₁)
      (request.queryAsking q rest n₂ id₂)) :
    FareAlike r.timeout w (r.executeAt env clock id₁ (request.asking q rest n₁) w)
      (r.executeAt env clock id₂ (request.asking q rest n₂) w) ∧
    Domain.canonical n₁.text = Domain.canonical n₂.text ∧
    r.consulted (request.asking q rest n₁) = r.consulted (request.asking q rest n₂) := by
  have htext := Name.lower_text_eq_iff.2 h
  have hcanonical : Domain.canonical n₁.text = Domain.canonical n₂.text := by
    rw [← Domain.canonical_lower, htext, Domain.canonical_lower]
  have hconsult : r.router.consult n₁.text = r.router.consult n₂.text := by
    rw [← r.router.consult_lower, htext, r.router.consult_lower]
  refine ⟨?_, hcanonical, congrArg (·.2) hconsult⟩
  have hpass₁ : Passes (request.asking q rest n₁) { q with name := n₁ } := ⟨rfl, h₁⟩
  have hpass₂ : Passes (request.asking q rest n₂) { q with name := n₂ } := ⟨rfl, h₂⟩
  have hfound := hostsRecord?_respelled hr q h
  generalize hx : r.hostsRecord? { q with name := n₁ } = found₁ at hfound
  generalize hy : r.hostsRecord? { q with name := n₂ } = found₂ at hfound
  unfold executeAt
  cases hfound with
  | nothing =>
    rw [run_of_admits ⟨hpass₁, hx⟩, run_of_admits ⟨hpass₂, hy⟩]
    exact lookUp_respelled h hanswers
  | record hab =>
    rw [run_of_found hpass₁ hx, run_of_found hpass₂ hy]
    exact write_respelled hab
  | fault e f =>
    rw [run_of_refuses (.record hpass₁ hx), run_of_refuses (.record hpass₂ hy)]
    exact ⟨.inr ⟨e, f, rfl, rfl⟩, rfl, rfl, [], [], (List.append_nil _).symm,
      (List.append_nil _).symm, .nil, fun _ => .nil⟩

/-- A hosts table has an address for `a`.  Requests for `A.` and `a.` are answered from it alike,
and those for `B.` and `b.` by the server. -/
theorem respelled_alike_capitals :
    let table : HostsTable := ⟨[(['a'], [.v4 ⟨10, 0, 0, 1⟩])]⟩
    let r : Resolver Unit := { oneServer with hosts := [table.source] }
    let w : World Unit := .fresh .standard
    let asked (n : Name) : Except Failure Outcome × World Unit :=
      r.executeAt (.answering (Message.bare (Header.blank 0 true 0))) (fun _ => 5) 1
        ((Message.bare (Header.blank 1 false 0)).asking ⟨.root, 1, 1⟩ [] n) w
    let a : Name := ⟨[[97]], by decide⟩
    let a' : Name := ⟨[[65]], by decide⟩
    let b : Name := ⟨[[98]], by decide⟩
    let b' : Name := ⟨[[66]], by decide⟩
    (asked a).1 = .ok .hosts ∧ FareAlike r.timeout w (asked a') (asked a) ∧
      (asked b).1 = .ok (.forwarded cleanGroup) ∧ FareAlike r.timeout w (asked b') (asked b) := by
  intro table r w asked a a' b b'
  have halike : ∀ n m : Name, n.lower = m.lower → Domain.isLooping n.text = false →
      Domain.isLooping m.text = false → FareAlike r.timeout w (asked n) (asked m) :=
    fun n m h h₁ h₂ => (@respelled_alike _ r [table] rfl _ _ w _ _ _ _ _ n m h h₁ h₂
      fun _ _ _ _ => rfl).1
  refine ⟨?_, halike _ _ (by decide) (by decide) (by decide), ?_,
    halike _ _ (by decide) (by decide) (by decide)⟩
  · decide +kernel
  · decide +kernel

end Resolver

end SplitDns
