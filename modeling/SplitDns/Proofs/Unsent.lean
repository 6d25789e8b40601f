import SplitDns.Proofs.Exchanges
import SplitDns.Proofs.Room
import SplitDns.Transport.Caller

/-!
# Requests that are not sent

A call refuses a request before it turns to the network, or not at all: what goes wrong later is
never an invalid request (`Step.Fails`).  The one failure on a stream that is an invalid request,
that of a message which is too long for a frame, does not occur in calls, because the encoder does
not write such messages (`Message.length_le_of_encode?`).
-/

namespace SplitDns

/-! ## The length of messages -/

/-- What is written of a section ends within the limit, be it all of it or not. -/
theorem Section.offset_of_write {rs : List Record} {p q : Place} {s : Section}
    (h : write rs p = (s, q)) (hp : p.offset ≤ Place.limit) :
    q.offset = p.offset + s.octets.length ∧ q.offset ≤ Place.limit := by
  induction rs generalizing p s with
  | nil =>
    cases h
    exact ⟨rfl, hp⟩
  | cons r rs ih =>
    unfold write at h
    split at h
    · cases h
      exact ⟨rfl, hp⟩
    · next bs p' hr =>
      cases h
      obtain ⟨-, hoffset⟩ := r.writes.ends hr
      obtain ⟨-, -, -, -, -, hlimit, -⟩ := Record.write_eq_some hr
      obtain ⟨hoffset', hlimit'⟩ := ih rfl hlimit
      refine ⟨?_, hlimit'⟩
      simp only [List.length_append]
      omega

namespace Message

theorem length_le_of_writtenAs {m : Message} {b : Body} (h : m.WrittenAs b) :
    12 + b.octets.length ≤ Place.limit := by
  obtain ⟨p₁, p₂, p₃, p₄, p₅, hq, h₁, h₂, h₃, h₄⟩ := h
  have hlimit := Section.offset_le_limit_of_writeQuestions hq (by decide)
  obtain ⟨-, ho⟩ := (Section.writes_questions m.questions).ends hq
  obtain ⟨ho₁, hlimit₁⟩ := Section.offset_of_write h₁ hlimit
  obtain ⟨ho₂, hlimit₂⟩ := Section.offset_of_write h₂ hlimit₁
  obtain ⟨ho₃, hlimit₃⟩ := Section.offset_of_write h₃ hlimit₂
  obtain ⟨ho₄, hlimit₄⟩ := Section.offset_of_write h₄ hlimit₃
  have hstart : (Place.start 12).offset = 12 := rfl
  simp only [Body.octets, Body.sections, List.flatMap_cons, List.flatMap_nil, List.length_append,
    List.length_nil]
  omega

/-- No message takes more octets than a frame or a datagram holds. -/
theorem length_le_of_encode? {m : Message} {bs : Bytes} (h : m.encode? = some bs) :
    bs.length ≤ 65535 := by
  obtain ⟨b, hb, h⟩ := Option.bind_eq_some_iff.1 h
  have hbody := length_le_of_writtenAs (body?_eq_some_iff.1 hb).1
  cases h
  rw [List.length_append, List.length_append]
  exact hbody

theorem toSend_eq_ok_iff {m : Message} {bs : Bytes} : m.toSend = .ok bs ↔ m.encode? = some bs := by
  unfold toSend
  cases m.encode? with
  | none => exact iff_of_false nofun nofun
  | some bs' => simp

end Message

/-! ## Failures -/

namespace Exchange

variable {ε ε' α β : Type}

/-- Whether all that can go wrong in an exchange has a property. -/
def Fails (x : Exchange ε α) (P : ε → Prop) : Prop :=
  ∀ s e, (x s).1 = .error e → P e

theorem Fails.bind {x : Exchange ε α} {f : α → Exchange ε β} {P : ε → Prop} (hx : x.Fails P)
    (hf : ∀ a, (f a).Fails P) : (bind x f).Fails P := by
  intro s e h
  cases hok : (x s).1 with
  | error e' =>
    rw [bind_of_error hok] at h
    cases h
    exact hx s e hok
  | ok a =>
    rw [bind_of_ok hok] at h
    exact hf a _ e h

theorem fails_mapError (g : ε → ε') (x : Exchange ε α) {P : ε' → Prop} (h : ∀ e, P (g e)) :
    (mapError g x).Fails P := by
  intro s e he
  rw [mapError_apply] at he
  cases hx : (x s).1 with
  | ok a =>
    rw [hx] at he
    cases he
  | error e' =>
    rw [hx] at he
    cases he
    exact h e'

end Exchange

namespace Step

variable {ε ε' α β : Type} {P : ε → Prop}

/-- Whether all that can go wrong in a step has a property. -/
def Fails (x : Step ε α) (P : ε → Prop) : Prop :=
  ∀ e, x.1 = .error e → P e

theorem fails_ok (a : α) (sent : List Activity) : Fails ((.ok a, sent) : Step ε α) P :=
  fun _ h => nomatch h

theorem fails_error {e : ε} (h : P e) (sent : List Activity) :
    Fails ((.error e, sent) : Step ε α) P := by
  intro e' he
  cases he
  exact h

theorem Fails.andThen {x : Step ε α} {f : α → Step ε β} (hx : x.Fails P)
    (hf : ∀ a, (f a).Fails P) : (x.andThen f).Fails P := by
  obtain ⟨result, sent⟩ := x
  cases result with
  | error e => exact fails_error (hx e rfl) sent
  | ok a => exact fun e h => hf a e h

theorem fails_mapError {g : ε' → ε} {x : Step ε' α} (hx : x.Fails fun e => P (g e)) :
    (x.mapError g).Fails P := by
  obtain ⟨result, sent⟩ := x
  cases result with
  | error e => exact fails_error (hx e rfl) sent
  | ok a => exact fails_ok a sent

end Step

/-- Failures that arise when a request has been taken as it is. -/
def Failure.IsLate (e : Failure) : Prop :=
  e.isInvalidRequest = false

theorem Framing.send_of_long {message : Bytes} (h : 65535 < message.length) :
    Framing.send message = Exchange.fail (.tooLong message.length) :=
  if_pos h

theorem Framing.send_of_short {message : Bytes} (h : message.length ≤ 65535) :
    Framing.send message = Exchange.bind (Exchange.mapError .writeLength
        (Exchange.write (Word.octets16 (UInt16.ofNat message.length))))
      fun _ => Exchange.mapError .writeMessage (Exchange.write message) :=
  if_neg (by omega)

/-- A message that is not too long is never refused as such. -/
theorem Framing.fails_send {message : Bytes} (h : message.length ≤ 65535) :
    (Framing.send message).Fails fun fault => ∀ size, fault ≠ .tooLong size := by
  rw [send_of_short h]
  exact (Exchange.fails_mapError _ _ fun _ _ => nofun).bind fun _ =>
    Exchange.fails_mapError _ _ fun _ _ => nofun

theorem Framing.fails_receive :
    Framing.receive.Fails fun fault => ∀ size, fault ≠ .tooLong size := by
  refine (Exchange.fails_mapError _ _ fun _ _ => nofun).bind fun octets => ?_
  split
  · exact Exchange.fails_mapError _ _ fun _ _ => nofun
  · intro s e h
    cases h
    exact fun _ => nofun

theorem Framing.isLate_failure {fault : Fault} (h : ∀ size, fault ≠ .tooLong size)
    (server : Text) : (fault.failure server).IsLate := by
  cases fault with
  | tooLong size => exact absurd rfl (h size)
  | writeLength cause => cases cause <;> rfl
  | writeMessage cause => cases cause <;> rfl
  | readLength cause => cases cause <;> rfl
  | readBody cause => cases cause <;> rfl

namespace Caller

variable {n : Network} {request : Message} {bytes : Bytes}

theorem fails_exchange {ε α : Type} {x : Exchange ε α} {P : ε → Prop} (hx : x.Fails P)
    (s : Stream) : (exchange x s).Fails P := by
  intro e h
  unfold exchange at h
  cases hs : (x s).1 with
  | ok a => simp [hs, Except.map] at h
  | error e' =>
    simp only [hs, Except.map, Except.error.injEq] at h
    exact hx s e (h ▸ hs)

theorem fails_dialled {failed : String → Failure} (h : ∀ reason, (failed reason).IsLate)
    (address : Text) : (dialled n address failed).Fails Failure.IsLate := by
  unfold dialled
  cases n.dial address with
  | done s => exact Step.fails_ok s _
  | failed reason => exact Step.fails_error (h reason) _
  | silent => exact Step.fails_error (by rfl) _

theorem fails_tunnel (proxy address : Text) :
    (tunnel n proxy address).Fails Failure.IsLate := by
  unfold tunnel
  cases Socks.request address with
  | error fault => exact Step.fails_error (by rfl) _
  | ok octets =>
    apply Step.Fails.andThen
    · apply fails_dialled
      intro reason
      rfl
    · intro s
      apply Step.Fails.andThen
      · apply Step.fails_mapError
        intro fault _
        show Failure.IsLate (if fault.isStalled then _ else _)
        cases fault.isStalled <;> rfl
      · exact fun a => Step.fails_ok a.2 _

theorem fails_stream (proxy : Option Text) (address : Text) :
    (stream n proxy address).Fails Failure.IsLate := by
  cases proxy with
  | none =>
    apply fails_dialled
    intro reason
    rfl
  | some proxy => exact fails_tunnel proxy address

theorem fails_parseAnswer (answer : Bytes) (id : UInt16) (sent : List Activity) :
    Step.Fails (Message.parseAnswer answer id, sent) Failure.IsLate := by
  unfold Message.parseAnswer
  cases Message.decode? answer with
  | none => exact Step.fails_error (by rfl) _
  | some m =>
    by_cases hid : m.id = id
    · simp only [if_pos hid]
      exact Step.fails_ok m sent
    · simp only [if_neg hid]
      exact Step.fails_error (by rfl) _

theorem fails_askFramed (h : bytes.length ≤ 65535) (address : Text) (s : Stream) :
    (askFramed request bytes address s).Fails Failure.IsLate := by
  have hexchange : (Framing.exchange bytes).Fails fun fault => ∀ size, fault ≠ .tooLong size :=
    (Framing.fails_send h).bind fun _ => Framing.fails_receive
  refine (Step.fails_mapError fun fault hfault => ?_).andThen fun a => fails_parseAnswer _ _ _
  exact Framing.isLate_failure (fails_exchange hexchange s fault hfault) address

theorem fails_askTcp (h : bytes.length ≤ 65535) (proxy : Option Text) (address : Text) :
    (askTcp n proxy request bytes address).Fails Failure.IsLate :=
  (fails_stream proxy address).andThen fun s => fails_askFramed h address s

theorem fails_askTls (h : bytes.length ≤ 65535) (proxy : Option Text) (address name : Text)
    (skip : Bool) :
    (askTls n proxy request bytes address name skip).Fails Failure.IsLate := by
  refine ((fails_stream proxy address).andThen fun s => ?_).andThen fun s =>
    fails_askFramed h address s
  unfold secured
  cases n.secure name skip s with
  | done t => exact Step.fails_ok t _
  | failed reason => exact Step.fails_error (by rfl) _
  | silent => exact Step.fails_error (by rfl) _

theorem fails_exchangeDatagram (address : Text) :
    (exchangeDatagram n address bytes).Fails Failure.IsLate := by
  unfold exchangeDatagram datagramAddress
  rcases n.resolve address with (_ | ⟨a, _⟩) | reason | _
  · exact Step.fails_error (by rfl) _
  · simp only
    rcases n.associate a with _ | reason | _
    · rcases n.query a bytes with answer | reason | _
      · exact Step.fails_ok _ _
      · exact Step.fails_error (by rfl) _
      · exact Step.fails_error (by rfl) _
    · exact Step.fails_error (by rfl) _
    · exact Step.fails_error (by rfl) _
  · exact Step.fails_error (by rfl) _
  · exact Step.fails_error (by rfl) _

theorem fails_askUdp (address : Text) :
    (askUdp n request bytes address).Fails fun f => f.cause.IsLate := by
  apply Step.Fails.andThen
  · apply Step.fails_mapError
    exact (fails_exchangeDatagram address).andThen fun answer => fails_parseAnswer answer _ _
  · intro m
    unfold complete
    cases m.header.truncated with
    | true => exact Step.fails_error (by rfl) _
    | false => exact Step.fails_ok m _

theorem fails_askHttps (proxy : Option Text) (url : Text) :
    (askHttps n proxy request bytes url).Fails Failure.IsLate := by
  unfold askHttps
  rcases n.post proxy url bytes with answer | reason | _
  · by_cases hstatus : Http.isSuccess answer.status = true
    · simp only [if_pos hstatus]
      rcases answer.body with body | reason | _
      · exact fails_parseAnswer body request.id _
      · exact Step.fails_error (by rfl) _
      · exact Step.fails_error (by rfl) _
    · simp only [if_neg hstatus]
      exact Step.fails_error (by rfl) _
  · exact Step.fails_error (by rfl) _
  · exact Step.fails_error (by rfl) _

/-- Whatever the network does, no failure of a request that could be encoded is an invalid
request. -/
theorem fails_ask (h : bytes.length ≤ 65535) (c : Caller) :
    (ask n c request bytes).Fails fun f => f.cause.IsLate := by
  unfold ask
  cases c.endpoint with
  | udp address =>
    by_cases hproxy : c.proxy.isSome = true
    · simp only [if_pos hproxy]
      exact Step.fails_mapError (fails_askTcp h c.proxy address)
    · simp only [if_neg hproxy]
      exact fails_askUdp address
  | tcp address => exact Step.fails_mapError (fails_askTcp h c.proxy address)
  | tls address name skip => exact Step.fails_mapError (fails_askTls h c.proxy address name skip)
  | https url => exact Step.fails_mapError (fails_askHttps c.proxy url)

/-! ## Calls -/

/-- A call for a request that is not refused for its target or its questions. -/
def attempt (n : Network) (c : Caller) (request : Message) : Step CallFailure Message :=
  match request.toSend with
  | .error e => Step.fail (bare e)
  | .ok bytes => ask n c request bytes

theorem call_eq (n : Network) (c : Caller) (request : Message) :
    c.call n request = (c.refusal? request).elim (attempt n c request) fun e =>
      Step.fail (bare e) := by
  unfold call attempt
  cases c.refusal? request <;> rfl

theorem attempt_of_encode? (h : request.encode? = some bytes) (n : Network) (c : Caller) :
    attempt n c request = ask n c request bytes := by
  rw [attempt, Message.toSend, h]

theorem attempt_of_unwritable (h : request.encode? = none) (n : Network) (c : Caller) :
    attempt n c request =
      Step.fail (bare (.invalidRequest "Failed to serialize DNS message")) := by
  rw [attempt, Message.toSend, h]

/-- What keeps a caller from sending a request. -/
def Refuses (c : Caller) (request : Message) : Prop :=
  request.questions = [] ∨ c.target = [] ∨ request.encode? = none

theorem refusal?_eq_none_iff (c : Caller) (request : Message) :
    c.refusal? request = none ↔ request.questions ≠ [] ∧ c.target ≠ [] := by
  unfold refusal?
  by_cases hquestions : request.questions = []
  · simp [hquestions]
  · by_cases htarget : c.target = [] <;> simp [hquestions, htarget]

theorem isInvalidRequest_of_refusal? {c : Caller} {e : Failure}
    (h : c.refusal? request = some e) : e.isInvalidRequest = true := by
  unfold refusal? at h
  split at h
  · cases h
    rfl
  split at h
  · cases h
    rfl
  · cases h

/-- A request that is refused fails as an invalid one, before the network is used. -/
theorem call_of_refuses {c : Caller} (h : c.Refuses request) :
    ∃ e : Failure, e.isInvalidRequest = true ∧ ∀ n, c.call n request = Step.fail (bare e) := by
  cases hrefusal : c.refusal? request with
  | some e =>
    refine ⟨e, isInvalidRequest_of_refusal? hrefusal, fun n => ?_⟩
    rw [call_eq, hrefusal]
    rfl
  | none =>
    obtain ⟨hquestions, htarget⟩ := (refusal?_eq_none_iff c request).1 hrefusal
    have hencode : request.encode? = none :=
      (h.resolve_left hquestions).resolve_left htarget
    refine ⟨.invalidRequest "Failed to serialize DNS message", rfl, fun n => ?_⟩
    rw [call_eq, hrefusal]
    exact attempt_of_unwritable hencode n c

theorem fails_call {c : Caller} (h : ¬ c.Refuses request) (n : Network) :
    (c.call n request).Fails fun f => f.cause.IsLate := by
  have hrefusal : c.refusal? request = none :=
    (refusal?_eq_none_iff c request).2 ⟨fun hq => h (.inl hq), fun ht => h (.inr (.inl ht))⟩
  cases hencode : request.encode? with
  | none => exact absurd (.inr (.inr hencode)) h
  | some bytes =>
    rw [call_eq, hrefusal, Option.elim_none, attempt_of_encode? hencode]
    exact fails_ask (Message.length_le_of_encode? hencode) c

/-- A call fails with an invalid request just when the request is refused, whatever the network
does; then nothing is sent, and the network is not even used.  A message that was encoded is never
too long for a frame. -/
theorem unsent_of_invalidRequest (n : Network) (c : Caller) (request : Message) :
    ((∃ f, (c.call n request).1 = .error f ∧ f.cause.isInvalidRequest = true) ↔
      request.questions = [] ∨ c.target = [] ∨ request.encode? = none) ∧
    (∀ f, (c.call n request).1 = .error f → f.cause.isInvalidRequest = true →
      (c.call n request).2 = [] ∧ ∀ n', c.call n' request = c.call n request) ∧
    ∀ bytes, request.toSend = .ok bytes → bytes.length ≤ 65535 ∧
      ∀ s size, (Framing.send bytes s).1 ≠ .error (.tooLong size) := by
  have hrefuses : ∀ f, (c.call n request).1 = .error f → f.cause.isInvalidRequest = true →
      c.Refuses request := by
    intro f hf hinvalid
    apply Classical.byContradiction
    intro h
    have hlate : f.cause.isInvalidRequest = false := fails_call h n f hf
    rw [hlate] at hinvalid
    cases hinvalid
  refine ⟨⟨?_, ?_⟩, ?_, ?_⟩
  · rintro ⟨f, hf, hinvalid⟩
    exact hrefuses f hf hinvalid
  · intro h
    obtain ⟨e, he, hcall⟩ := call_of_refuses h
    exact ⟨bare e, by rw [hcall n]; rfl, he⟩
  · intro f hf hinvalid
    obtain ⟨e, -, hcall⟩ := call_of_refuses (hrefuses f hf hinvalid)
    exact ⟨by rw [hcall n]; rfl, fun n' => by rw [hcall n', hcall n]⟩
  · intro bytes hbytes
    have hlength := Message.length_le_of_encode? (Message.toSend_eq_ok_iff.1 hbytes)
    exact ⟨hlength, fun s size h => Framing.fails_send hlength s _ h size rfl⟩

end Caller

end SplitDns
