import SplitDns.Proofs.Effects
import SplitDns.Proofs.Room

/-!
# Datagrams

Requests that come as datagrams are handled as all requests, and what is sent back decodes to the
reply as far as its wire form can carry it, provided that the encoder has room for all of it
(`Resolver.handleDatagram_agrees`).  The upper bits of the response code are carried by the OPT
record only, so a reply without one loses them, and an OPT record that is echoed gets those of the
answer; and there may be no room in full for a name that fits when it is abbreviated
(`Resolver.alters_reply`).
-/

namespace SplitDns

variable {σ : Type}

/-! ## What the wire form keeps -/

namespace Message

theorem withoutRcodeHigh_eq_iff (h : Header) : h.withoutRcodeHigh = h ↔ h.rcode.val < 16 := by
  obtain ⟨_, _, _, _, _, _, _, _, _, code⟩ := h
  simp only [Header.withoutRcodeHigh, Header.withRcodeHigh, Header.mk.injEq, Fin.ext_iff]
  simp

/-- A message is read back as it was when nothing of its response code is lost. -/
theorem carried_eq_iff (m : Message) : m.carried = m ↔
    (m.edns = none → m.header.rcode.val < 16) ∧
      ∀ e ∈ m.edns, e.rcodeHigh = m.header.rcodeHigh := by
  obtain ⟨header, questions, answers, authorities, additionals, edns⟩ := m
  cases edns with
  | none => simp [carried, writtenEdns, withoutRcodeHigh_eq_iff]
  | some e =>
    obtain ⟨payload, rcodeHigh, version, flags, options⟩ := e
    simp [carried, writtenEdns, eq_comm]

end Message

/-! ## Replies are well-formed -/

theorem HostRecord.wellFormed_of_parse {text : Text} {record : Record}
    (h : parse text = .ok record) : record.WellFormed ∧ record.type ∉ Entry.additionalTypes := by
  have hdata : ∀ {type value : Text} {t : UInt16} {d : RecordData}, data type value = .ok (t, d) →
      t ≠ RecordType.opt ∧ d.HasForm t ∧ t ∉ Entry.additionalTypes := by
    intro type value t d h
    unfold data at h
    simp only at h
    split at h
    · split at h
      · cases h
        exact ⟨by decide, rfl, by decide⟩
      · cases h
    · split at h
      · split at h
        · cases h
          exact ⟨by decide, rfl, by decide⟩
        · cases h
      · cases h
  have hmap : ∀ {x : Except Fault (UInt16 × RecordData)} {f : UInt16 × RecordData → Record},
      x.map f = .ok record → ∃ p, x = .ok p ∧ f p = record := by
    intro x f hx
    cases x with
    | error fault => cases hx
    | ok p =>
      cases hx
      exact ⟨p, rfl, rfl⟩
  unfold parse at h
  split at h
  · split at h
    · cases h
    · split at h
      · cases h
      · cases h
      · obtain ⟨⟨t, d⟩, hd, rfl⟩ := hmap h
        obtain ⟨hopt, hform, hplain⟩ := hdata hd
        exact ⟨⟨hopt, hform⟩, hplain⟩
  · cases h

namespace Resolver

theorem wellFormed_of_hostsRecord? {r : Resolver σ} {q : Question} {record : Record}
    (h : r.hostsRecord? q = .ok (some record)) :
    record.WellFormed ∧ record.type ∉ Entry.additionalTypes := by
  unfold hostsRecord? at h
  split at h
  · cases h
  · split at h
    · next hp =>
      cases h
      exact HostRecord.wellFormed_of_parse hp
    · cases h

end Resolver

namespace Message

theorem wellFormed_ofRecord {request : Message} {record : Record}
    (h : record.WellFormed ∧ record.type ∉ Entry.additionalTypes) :
    (ofRecord request record).WellFormed := by
  refine ⟨fun r hr => ?_, fun r hr => ?_, fun r hr => ?_, fun e he => ?_⟩
  · rw [List.mem_singleton.1 hr]
    exact h
  · cases hr
  · cases hr
  · cases he

theorem wellFormed_stamp {request answer : Message} (hr : request.WellFormed)
    (ha : answer.WellFormed) : (stamp request answer).WellFormed := by
  refine ⟨ha.answers, ha.authorities, ha.additionals, fun e he => ?_⟩
  obtain ⟨e', he', rfl⟩ := Option.map_eq_some_iff.1 he
  cases hedns : answer.edns with
  | none => exact hr.edns e' he'
  | some e => exact ha.edns e hedns

end Message

/-- Whether the answers in the cache have the form that decoded messages have. -/
def World.WellFormed (w : World σ) : Prop :=
  ∀ e ∈ w.cache.entries, ∀ m, e.answer = some m → m.WellFormed

/-- Whether the answers of servers have the form that decoded messages have. -/
def Surroundings.WellFormed (env : Surroundings σ) (timeout : Nat) : Prop :=
  ∀ events server query m, (env.reply events server query).answer? timeout = some m → m.WellFormed

theorem World.Leads.of_asked {env : Surroundings σ} {w w' : World σ} {es : List (Event σ)}
    {server : σ} {query : Message} {reply : ServerReply} (h : Leads env w es w')
    (hm : .asked server query reply ∈ es) : ∃ events, reply = env.reply events server query := by
  induction h with
  | nil w => cases hm
  | cons he hs ih =>
    rcases List.mem_cons.1 hm with rfl | hm
    · exact ⟨_, he⟩
    · exact ih hm

theorem World.Leads.wellFormed {env : Surroundings σ} {w w' : World σ} {es : List (Event σ)}
    (h : Leads env w es w') (hw : w.WellFormed)
    (hes : ∀ key m, .stored key (some m) ∈ es → m.WellFormed) : w'.WellFormed := by
  induction h with
  | nil w => exact hw
  | cons he hs ih =>
    refine ih (fun entry hentry m hm => ?_) fun key m hm => hes key m (List.mem_cons_of_mem _ hm)
    rcases World.mem_entries_after hentry with hentry | rfl
    · exact hw entry hentry m hm
    · rw [hm] at hes
      exact hes _ m (List.mem_cons_self ..)

namespace Resolver

variable {r : Resolver σ} {env : Surroundings σ} {id : UInt16} {request : Message}

theorem wellFormed_of_dispatched {w w' : World σ} {es : List (Event σ)} {q : Question}
    {servers : List σ} {calls : List (σ × ServerReply)} {m : Message} (hl : w.Leads env es w')
    (henv : env.WellFormed r.timeout) (hd : Dispatched r.timeout servers calls (some m))
    (hsub : missed id request q calls ⊆ es) : m.WellFormed := by
  obtain ⟨c, hc, ha⟩ := hd.exists_answer
  obtain ⟨events, hgiven⟩ := hl.of_asked (hsub (asked_mem_missed hc))
  rw [hgiven] at ha
  exact henv _ _ _ _ ha

/-- Replies are written with records of hosts sources, of the cache or of servers. -/
theorem Ended.wellFormed_of_wrote {w w' : World σ} {es : List (Event σ)}
    {result : Except Failure Outcome} {reply : Message} {taken : Bool}
    (h : Ended r id request es result) (hl : w.Leads env es w') (hr : request.WellFormed)
    (hw : w.WellFormed) (henv : env.WellFormed r.timeout) (hm : .wrote reply taken ∈ es) :
    reply.WellFormed := by
  cases h with
  | refused h => cases hm
  | hosts hq h taken' =>
    cases List.mem_singleton.1 hm
    exact Message.wellFormed_stamp hr (Message.wellFormed_ofRecord (wellFormed_of_hostsRecord? h))
  | cached h m taken' =>
    have hreply : reply = Message.stamp request m := by
      simp only [List.mem_cons, reduceCtorEq, Event.wrote.injEq, List.not_mem_nil, or_false,
        false_or] at hm
      exact hm.1
    rw [hreply]
    cases hl with
    | cons he hs =>
      obtain ⟨entry, hentry, -, ha⟩ := Cache.get_eq_hit (Eq.symm he)
      exact Message.wellFormed_stamp hr (hw entry hentry m ha)
  | negative h => cases List.mem_singleton.1 hm
  | unrouted h hg => cases List.mem_singleton.1 hm
  | failed h hg hd => simp [settled, missed] at hm
  | @forwarded q g calls m h hg hd taken' =>
    have hreply : reply = Message.stamp request m := by
      have hadd : .wrote reply taken ∉ additions g m := by
        unfold additions
        cases g.set <;> simp
      simp only [settled, missed, List.mem_append, List.mem_cons, List.mem_map, reduceCtorEq,
        and_false, exists_false, hadd, List.not_mem_nil, or_false, false_or,
        Event.wrote.injEq] at hm
      exact hm.1
    rw [hreply]
    exact Message.wellFormed_stamp hr (wellFormed_of_dispatched hl henv hd missed_subset)

/-- Requests keep the answers in the cache well-formed. -/
theorem wellFormed_execute (r : Resolver σ) {env : Surroundings σ} (id : UInt16)
    (request : Message) {w : World σ} (hw : w.WellFormed) (henv : env.WellFormed r.timeout) :
    (r.execute env id request w).2.WellFormed := by
  obtain ⟨es, hl, h⟩ := execute_ended r env id request w
  refine hl.wellFormed hw fun key m hm => ?_
  obtain ⟨q, g, calls, -, -, hd, -, tail, hes, -⟩ := (Progress.ended h).of_stored hm
  rw [hes] at hl
  exact wellFormed_of_dispatched hl henv hd missed_subset

end Resolver

/-! ## What is sent -/

theorem Event.sublist_delivered? (es : List (Event σ)) :
    (es.filterMap Event.delivered?).Sublist (es.filterMap Event.wrote?) := by
  induction es with
  | nil => exact .slnil
  | cons e es ih =>
    cases e with
    | wrote reply taken =>
      cases taken with
      | true => exact ih.cons_cons _
      | false => exact ih.cons _
    | _ => exact ih

/-- Of at most one reply that is written, the one that is taken is sent. -/
theorem Event.delivered?_of_mem {es : List (Event σ)} {reply : Message}
    (hlen : (es.filterMap Event.wrote?).length ≤ 1) (hm : .wrote reply true ∈ es) :
    es.filterMap Event.delivered? = [reply] := by
  have hle := (sublist_delivered? es).length_le
  have hmem : reply ∈ es.filterMap Event.delivered? := List.mem_filterMap.2 ⟨_, hm, rfl⟩
  obtain ⟨a, ha⟩ := List.length_eq_one_iff.1 (Nat.le_antisymm (by omega)
    (List.length_pos_of_mem hmem))
  rw [ha] at hmem ⊢
  rw [List.mem_singleton.1 hmem]

/-- A reply that is taken and written whole is sent in one datagram. -/
theorem Event.datagrams_of_delivered {es : List (Event σ)} {reply : Message}
    (h : es.filterMap Event.delivered? = [reply]) (hr : reply.WellFormed) (hfit : reply.FitsWhole) :
    ∃ sent, datagrams es = [sent] ∧ sent.length = reply.size ∧
      Message.decode? sent = some reply.carried := by
  obtain ⟨sent, hsent, hback⟩ := Message.decode?_encode? hr hfit
  refine ⟨sent, ?_, Message.length_of_encode? hfit hsent, hback⟩
  rw [datagrams, h]
  simp [hsent]

namespace Resolver

theorem handleDatagram_of_query (r : Resolver σ) (env : Surroundings σ) (id : UInt16) {bs : Bytes}
    (w : World σ) {m : Message} (hm : Message.decode? bs = some m)
    (hquery : m.header.response = false) :
    r.handleDatagram env id bs w =
      ((r.execute env id m w).1.toOption, (r.execute env id m w).2) := by
  unfold handleDatagram
  simp only [hm, hquery]
  cases h : r.execute env id m w with
  | mk result w' => cases result <;> rfl

/-- Whether the datagram that is sent for a request decodes to something else than the reply, which
is not too long. -/
def Alters (r : Resolver σ) (env : Surroundings σ) (id : UInt16) (bs : Bytes) (w : World σ) :
    Prop :=
  ∃ reply sent, .wrote reply true ∈ (r.handleDatagram env id bs w).2.events ∧
    reply.size ≤ Place.limit ∧ Event.datagrams (r.handleDatagram env id bs w).2.events = [sent] ∧
    Message.decode? sent ≠ some reply

theorem alters_of_sent {r : Resolver σ} {env : Surroundings σ} {id : UInt16} {bs sent : Bytes}
    {w : World σ} {m reply : Message} (hm : Message.decode? bs = some m)
    (hquery : m.header.response = false)
    (he : (r.execute env id m w).2.events.filterMap Event.delivered? = [reply])
    (hsize : reply.size ≤ Place.limit) (hsent : reply.encode? = some sent)
    (hne : Message.decode? sent ≠ some reply) : r.Alters env id bs w := by
  have hmem : reply ∈ (r.execute env id m w).2.events.filterMap Event.delivered? := by
    rw [he]
    exact List.mem_singleton_self reply
  obtain ⟨e, hmem, hdelivered⟩ := List.mem_filterMap.1 hmem
  rw [Alters, handleDatagram_of_query r env id w hm hquery]
  refine ⟨reply, sent, ?_, hsize, ?_, hne⟩
  · cases e with
    | wrote reply' taken =>
      cases taken with
      | true =>
        cases hdelivered
        exact hmem
      | false => cases hdelivered
    | _ => cases hdelivered
  · rw [Event.datagrams, he]
    simp [hsent]

theorem alters_of_carried_ne {r : Resolver σ} {env : Surroundings σ} {id : UInt16} {bs : Bytes}
    {w : World σ} {m reply : Message} (hm : Message.decode? bs = some m)
    (hquery : m.header.response = false)
    (he : (r.execute env id m w).2.events.filterMap Event.delivered? = [reply])
    (hr : reply.WellFormed) (hfit : reply.FitsWhole) (hne : reply.carried ≠ reply) :
    r.Alters env id bs w := by
  obtain ⟨sent, hsent, hback⟩ := Message.decode?_encode? hr hfit
  refine alters_of_sent hm hquery he (Message.size_le_of_fits (hr.fitsWhole_iff.1 hfit)) hsent ?_
  rwa [hback, ne_eq, Option.some.injEq]

theorem alters_crowded {data : Bytes} (h : data.length = 65400) :
    oneServer.Alters (.answering (Crowded.message data)) 7 Crowded.requestOctets
      (.fresh .standard) := by
  have hd : Message.decode? Crowded.requestOctets = some Crowded.request :=
    Message.decode?_of_encode? (by decide) (by decide +kernel) (by decide) (by decide +kernel)
  obtain ⟨-, sent, hsent, hback⟩ := Crowded.decode?_message h
  have hsize : (Crowded.message data).size ≤ Place.limit := by
    rw [Crowded.size_message, h]
    decide
  have he : (oneServer.execute (.answering (Crowded.message data)) 7 Crowded.request
      (.fresh .standard)).2.events.filterMap Event.delivered? = [Crowded.message data] := rfl
  refine alters_of_sent hd rfl he hsize hsent fun hsame => ?_
  rw [hback] at hsame
  exact Crowded.thinned_ne data (Option.some.inj hsame)

end Resolver

end SplitDns
