import SplitDns.Proofs.Questions
import SplitDns.Proofs.Tunnel
import SplitDns.Proofs.Unsent

/-!
# Framed exchanges

A frame says how long it is, so reading a message stops where the frame does
(`Framing.exact_receive`), and what is sent is read back.  What a framed exchange comes to depends
on nothing but the bytes to come, and opening a tunnel takes none of those behind it; so a call by
way of a proxy comes to what the direct one does (`Caller.framed_through_tunnel`).  All of that is
about requests that can be encoded; those with more questions than the encoder has room for are
refused before anything is sent (`Caller.unanswered_when_unwritable`).
-/

namespace SplitDns

theorem Word.toNat_ofOctets16 (a b : UInt8) :
    (ofOctets16 a b).toNat = a.toNat * 256 + b.toNat := by
  have ha := a.toNat_lt
  have hb := b.toNat_lt
  have hor := Nat.shiftLeft_add_eq_or_of_lt (show b.toNat < 2 ^ 8 from hb) a.toNat
  rw [Nat.shiftLeft_eq] at hor
  simp only [ofOctets16, UInt16.toNat_or, UInt16.toNat_shiftLeft, UInt8.toNat_toUInt16,
    Nat.shiftLeft_eq]
  rw [show (8 : UInt16).toNat % 16 = 8 from rfl, Nat.mod_eq_of_lt (by omega), ← hor]

namespace Framing

open Exchange (Exact)

/-! ## Frames -/

/-- A frame of a message: its length in two octets, the high one first, and the message. -/
inductive Frames (message : Bytes) : Bytes → Prop
  | frame (high low : UInt8) (h : high.toNat * 256 + low.toNat = message.length) :
      Frames message (high :: low :: message)

/-- The frame that is sent for a message. -/
def frame (message : Bytes) : Bytes :=
  Word.octets16 (UInt16.ofNat message.length) ++ message

theorem length_frame (message : Bytes) : (frame message).length = 2 + message.length := by
  rw [frame, List.length_append]
  rfl

theorem frames_frame {message : Bytes} (h : message.length ≤ 65535) :
    Frames message (frame message) := by
  refine .frame _ _ ?_
  rw [← Word.toNat_ofOctets16, Word.ofOctets16_octets, Word.toNat_ofNat16 h]

theorem exact_receive : Exact receive (fun got message => Frames message got) [] := by
  have hbody : ∀ high low : UInt8, Exact
      (Exchange.mapError Fault.readBody (Exchange.read (Word.ofOctets16 high low).toNat))
      (fun got message => got = message ∧ high.toNat * 256 + low.toNat = message.length) [] := by
    intro high low
    refine ((Exchange.exact_read _).mapError _).congr fun got message => ?_
    rw [Word.toNat_ofOctets16, eq_comm (a := message.length)]
  refine (((Exchange.exact_read 2).mapError Fault.readLength).bindOf
    (fun size got message => got = message ∧ ∃ high low : UInt8, size = [high, low] ∧
      high.toNat * 256 + low.toNat = message.length) fun got size h => ?_).congr
    fun got message => ⟨?_, ?_⟩
  · obtain ⟨high, size, rfl⟩ := List.exists_cons_of_length_eq_add_one h.2
    obtain ⟨low, rfl⟩ := List.length_eq_one_iff.1 (Nat.succ.inj h.2)
    refine (hbody high low).congr fun got message => ⟨?_, ?_⟩
    · rintro ⟨hgot, hlength⟩
      exact ⟨hgot, high, low, rfl, hlength⟩
    · rintro ⟨hgot, _, _, heq, hlength⟩
      cases heq
      exact ⟨hgot, hlength⟩
  · rintro ⟨_, _, _, rfl, ⟨rfl, -⟩, rfl, high, low, rfl, hlength⟩
    exact .frame high low hlength
  · intro h
    cases h with
    | frame high low h => exact ⟨_, [high, low], _, rfl, ⟨rfl, rfl⟩, rfl, high, low, rfl, h⟩

theorem exact_send {message : Bytes} (h : message.length ≤ 65535) :
    Exact (send message) (fun got _ => got = []) (frame message) := by
  rw [send_of_short h]
  refine (((Exchange.exact_write _).mapError _).bind fun _ =>
    (Exchange.exact_write message).mapError _).congr fun got _ => ⟨?_, ?_⟩
  · rintro ⟨_, _, _, rfl, rfl, rfl⟩
    rfl
  · rintro rfl
    exact ⟨[], (), [], rfl, rfl, rfl⟩

theorem exact_exchange {message : Bytes} (h : message.length ≤ 65535) :
    Exact (exchange message) (fun got answer => Frames answer got) (frame message) := by
  have hboth := (exact_send h).bind fun _ => exact_receive
  rw [List.append_nil] at hboth
  refine hboth.congr fun got answer => ⟨?_, ?_⟩
  · rintro ⟨_, _, _, rfl, rfl, hanswer⟩
    exact hanswer
  · intro hanswer
    exact ⟨[], (), got, rfl, rfl, hanswer⟩

/-- What sending a message on a stream comes to. -/
structure Sends (message : Bytes) (s : Stream) : Prop where
  /-- It succeeds when the message is not too long and there is room for its frame. -/
  succeeds : (send message s).1 = .ok () ↔
    message.length ≤ 65535 ∧ s.Takes (2 + message.length)
  frame : (send message s).1 = .ok () →
    ∃ frame, Frames message frame ∧ s.Moves [] frame (send message s).2
  tooLong : 65535 < message.length → send message s = (.error (.tooLong message.length), s)
  /-- Whoever reads what was sent reads the message, and leaves what comes after it. -/
  readBack : (send message s).1 = .ok () → ∀ (t : Stream) (rest : Bytes),
    s.written ++ t.incoming = (send message s).2.written ++ rest →
    (receive t).1 = .ok message ∧ (receive t).2.incoming = rest

theorem sends (message : Bytes) (s : Stream) : Sends message s := by
  by_cases hlong : 65535 < message.length
  · rw [← Nat.not_le] at hlong
    have hfail : send message s = (.error (.tooLong message.length), s) :=
      congrFun (send_of_long (Nat.not_le.1 hlong)) s
    exact ⟨by simp [hfail, hlong], by simp [hfail], fun _ => hfail, by simp [hfail]⟩
  have hshort : message.length ≤ 65535 := Nat.not_lt.1 hlong
  have hexact := exact_send hshort
  have hmoves : (send message s).1 = .ok () →
      s.Moves [] (Framing.frame message) (send message s).2 := by
    intro h
    obtain ⟨_, rfl, hmoves⟩ := hexact.sound h
    exact hmoves
  refine ⟨?_, fun h => ⟨_, frames_frame hshort, hmoves h⟩, fun h => absurd h hlong, ?_⟩
  · rw [hexact.eq_ok_iff, length_frame, and_iff_right hshort]
    exact and_iff_left ⟨[], rfl, List.nil_prefix⟩
  · intro h t rest ht
    rw [(hmoves h).written, List.append_assoc] at ht
    have hincoming : t.incoming = Framing.frame message ++ rest := List.append_cancel_left ht
    obtain ⟨hok, hread⟩ := exact_receive.complete (frames_frame hshort)
      (hincoming ▸ List.prefix_append _ rest) fun room _ => Nat.zero_le room
    exact ⟨hok, hread.incoming_eq hincoming⟩

/-- What receiving a message from a stream comes to. -/
structure Receives (s : Stream) : Prop where
  succeeds : ∀ message, (receive s).1 = .ok message ↔
    ∃ frame, Frames message frame ∧ frame <+: s.incoming
  /-- No byte behind the frame is read. -/
  frame : ∀ message frame, Frames message frame → frame <+: s.incoming →
    s.Moves frame [] (receive s).2
  fails : (∃ fault, (receive s).1 = .error fault) ↔ s.incoming.length < 2 ∨
    ∃ (high low : UInt8) (rest : Bytes), s.incoming = high :: low :: rest ∧
      rest.length < high.toNat * 256 + low.toNat
  pieces : ∀ pieces : List Bytes, pieces.flatten = s.incoming →
    let t := { s with pieces := pieces }
    (receive t).1 = (receive s).1 ∧ (receive t).2.incoming = (receive s).2.incoming

theorem exists_frames_iff (bs : Bytes) : (∃ message frame, Frames message frame ∧ frame <+: bs) ↔
    ∃ (high low : UInt8) (rest : Bytes), bs = high :: low :: rest ∧
      high.toNat * 256 + low.toNat ≤ rest.length := by
  constructor
  · rintro ⟨message, _, @⟨high, low, h⟩, rest, rfl⟩
    refine ⟨high, low, message ++ rest, rfl, ?_⟩
    rw [List.length_append]
    omega
  · rintro ⟨high, low, rest, rfl, h⟩
    refine ⟨_, _, .frame high low (List.length_take_of_le h).symm, ?_⟩
    exact ⟨_, congrArg (high :: low :: ·) (List.take_append_drop _ rest)⟩

theorem receives (s : Stream) : Receives s := by
  have hroom : s.Takes ([] : Bytes).length := fun room _ => Nat.zero_le room
  have hok : ∀ message, (receive s).1 = .ok message ↔
      ∃ frame, Frames message frame ∧ frame <+: s.incoming := by
    intro message
    rw [exact_receive.eq_ok_iff, and_iff_right hroom]
  refine ⟨hok, ?_, ?_, ?_⟩
  · intro message frame hframe hs
    exact (exact_receive.complete hframe hs hroom).2
  · have hfails : (∃ fault, (receive s).1 = .error fault) ↔
        ¬ ∃ message frame, Frames message frame ∧ frame <+: s.incoming := by
      cases hr : (receive s).1 with
      | error fault => simp [← hok, hr]
      | ok message =>
        obtain ⟨frame, hframe⟩ := (hok message).1 hr
        exact iff_of_false (by simp) (not_not_intro ⟨message, frame, hframe⟩)
    rw [hfails, exists_frames_iff]
    obtain _ | ⟨high, _ | ⟨low, rest⟩⟩ := s.incoming
    · simp
    · simp
    · constructor
      · intro h
        exact .inr ⟨high, low, rest, rfl, Nat.lt_of_not_le fun hle => h ⟨high, low, rest, rfl, hle⟩⟩
      · rintro (h | ⟨_, _, _, heq, h⟩) ⟨_, _, _, heq', h'⟩
        · simp only [List.length_cons] at h
          omega
        · cases heq
          cases heq'
          omega
  · intro pieces hpieces
    obtain ⟨hresult, -, -, hincoming⟩ := exact_receive.uniform.of_pieces hpieces
    exact ⟨hresult, hincoming⟩

end Framing

/-! ## Calls over a stream -/

theorem Step.andThen_fst {ε α β : Type} (x : Step ε α) (f : α → Step ε β) :
    (x.andThen f).1 = x.1.bind fun a => (f a).1 := by
  obtain ⟨result, sent⟩ := x
  cases result <;> rfl

namespace Message

theorem parseAnswer_eq_ok_iff {answer : Bytes} {id : UInt16} {m : Message} :
    parseAnswer answer id = .ok m ↔ decode? answer = some m ∧ m.id = id := by
  unfold parseAnswer
  cases decode? answer with
  | none => simp
  | some m' =>
    by_cases h : m'.id = id
    · simp only [if_pos h, Except.ok.injEq, Option.some.injEq]
      constructor
      · rintro rfl
        exact ⟨rfl, h⟩
      · exact And.left
    · simp only [if_neg h]
      refine iff_of_false nofun ?_
      rintro ⟨⟨⟩, hid⟩
      exact h hid

end Message

/-- A network in which every address leads to the same stream. -/
def Network.leadingTo (s : Stream) : Network :=
  { unreachable with connect := fun _ => .done s }

theorem Network.dial_leadingTo (s : Stream) {t : Text} {a : SocketAddr}
    (h : SocketAddr.parse? t = some a) : (leadingTo s).dial t = .done s := by
  rw [dial, resolve, h]
  rfl

namespace Caller

variable {n n' : Network} {request : Message} {bytes : Bytes} {address proxy : Text}
  {s t : Stream}

/-- Callers that refuse the same call alike when their attempts come to the same. -/
theorem call_fst_congr {c c' : Caller} (hrefusal : c.refusal? request = c'.refusal? request)
    (h : (attempt n c request).1 = (attempt n' c' request).1) :
    (c.call n request).1 = (c'.call n' request).1 := by
  rw [call_eq, call_eq, hrefusal]
  cases c'.refusal? request with
  | none => exact h
  | some e => rfl

theorem mapError_bare_eq_ok_iff {result : Except Failure Message} {m : Message} :
    result.mapError bare = .ok m ↔ result = .ok m := by
  cases result with
  | error e => exact iff_of_false nofun nofun
  | ok m' =>
    constructor
    · intro h
      cases h
      rfl
    · intro h
      cases h
      rfl

/-- The result of a framed exchange of which the answer is parsed. -/
theorem askFramed_fst (request : Message) (bytes : Bytes) (address : Text) (s : Stream) :
    (askFramed request bytes address s).1 =
      ((Framing.exchange bytes s).1.mapError (Framing.Fault.failure address)).bind fun answer =>
        Message.parseAnswer answer request.id := by
  unfold askFramed exchange
  rw [Step.andThen_fst]
  obtain ⟨result, u⟩ := Framing.exchange bytes s
  cases result <;> rfl

/-- On streams that are alike a framed exchange comes to the same. -/
theorem askFramed_congr (hbytes : bytes.length ≤ 65535) (h : s.Alike t) :
    (askFramed request bytes address s).1 = (askFramed request bytes address t).1 := by
  rw [askFramed_fst, askFramed_fst, ((Framing.exact_exchange hbytes).uniform h).1]

/-- What the call comes to that a framed exchange over `s` is made for. -/
structure Answered (s : Stream) (id : UInt16) (result : Except CallFailure Message) : Prop where
  /-- The first frame is parsed, and nothing of what follows it. -/
  parsed : ∀ message frame, Framing.Frames message frame → frame <+: s.incoming →
    result = (Message.parseAnswer message id).mapError bare
  /-- Without a whole frame the call fails. -/
  unframed : (∀ message frame, Framing.Frames message frame → ¬ frame <+: s.incoming) →
    ∃ f, result = .error f
  answered : ∀ m, result = .ok m ↔ ∃ message frame, Framing.Frames message frame ∧
    frame <+: s.incoming ∧ Message.decode? message = some m ∧ m.id = id

theorem answered_askFramed (hbytes : bytes.length ≤ 65535) (hroom : s.room = none) :
    Answered s request.id ((askFramed request bytes address s).1.mapError bare) := by
  have hexact := Framing.exact_exchange hbytes
  have hframed : ∀ message frame, Framing.Frames message frame → frame <+: s.incoming →
      (askFramed request bytes address s).1 = Message.parseAnswer message request.id := by
    intro message frame hframe hs
    rw [askFramed_fst, (hexact.complete hframe hs (s.takes_of_room _ hroom)).1]
    rfl
  have hunframed : (∀ message frame, Framing.Frames message frame → ¬ frame <+: s.incoming) →
      ∃ e, (askFramed request bytes address s).1 = .error e := by
    intro h
    rw [askFramed_fst]
    cases hok : (Framing.exchange bytes s).1 with
    | error fault => exact ⟨_, rfl⟩
    | ok message =>
      obtain ⟨-, frame, hframe, hs⟩ := hexact.eq_ok_iff.1 hok
      exact absurd hs (h message frame hframe)
  refine ⟨fun message frame hframe hs => by rw [hframed message frame hframe hs], fun h => ?_, ?_⟩
  · obtain ⟨e, he⟩ := hunframed h
    exact ⟨bare e, by rw [he]; rfl⟩
  · intro m
    rw [mapError_bare_eq_ok_iff]
    constructor
    · intro hok
      apply Classical.byContradiction
      intro hnone
      obtain ⟨e, he⟩ := hunframed fun message frame hframe hs =>
        hnone ⟨message, frame, hframe, hs,
          Message.parseAnswer_eq_ok_iff.1 ((hframed message frame hframe hs).symm.trans hok)⟩
      rw [he] at hok
      cases hok
    · rintro ⟨message, frame, hframe, hs, hm⟩
      rw [hframed message frame hframe hs, Message.parseAnswer_eq_ok_iff.2 hm]

/-! ## Tunnels -/

/-- The stream `s` leads to an address in one network, and in another one the stream `t` to a proxy
that opens a tunnel and then sends what comes on `s`. -/
structure Tunnels (n n' : Network) (address proxy : Text) (s t : Stream) : Prop where
  accepted : ∃ octets, Socks.request address = .ok octets
  direct : n.dial address = .done s
  proxied : n'.dial proxy = .done t
  incoming : ∃ opening, Socks.Opens opening ∧ t.incoming = opening ++ s.incoming
  ending : t.ending = s.ending
  room : s.room = none ∧ t.room = none

/-- Once the tunnel is open the stream to the proxy is like the one to the address. -/
theorem Tunnels.alike (h : Tunnels n n' address proxy s t) :
    ∃ u, (tunnel n' proxy address).1 = .ok u ∧ u.Alike s := by
  obtain ⟨octets, hrequest⟩ := h.accepted
  obtain ⟨opening, hopens, ht⟩ := h.incoming
  obtain ⟨hok, hmoves⟩ := (Socks.exact_negotiate octets).complete (a := ()) hopens
    (ht ▸ List.prefix_append opening _) (t.takes_of_room _ h.room.2)
  refine ⟨_, ?_, hmoves.incoming_eq ht, ?_, hmoves.ending.trans h.ending⟩
  · unfold tunnel dialled exchange
    rw [hrequest, h.proxied]
    simp only [Step.andThen_fst, Step.mapError, Except.bind, hok]
    rfl
  · rw [hmoves.room, h.room.1, h.room.2]
    rfl

theorem Tunnels.askTcp_eq (h : Tunnels n n' address proxy s t) (request : Message)
    (hbytes : bytes.length ≤ 65535) :
    (askTcp n none request bytes address).1 = (askFramed request bytes address s).1 ∧
    (askTcp n' (some proxy) request bytes address).1 = (askFramed request bytes address s).1 := by
  obtain ⟨u, hu, halike⟩ := h.alike
  unfold askTcp stream
  rw [Step.andThen_fst, Step.andThen_fst, hu, dialled, h.direct]
  exact ⟨rfl, askFramed_congr hbytes halike⟩

/-- What calls for a request come to that are made over `s` and over the tunnel. -/
structure Carried (n n' : Network) (address proxy : Text) (s : Stream) (request : Message) :
    Prop where
  answered : ∀ bytes, request.encode? = some bytes →
    Answered s request.id (attempt n ⟨.tcp address, none⟩ request).1
  /-- Requests as they are read can be encoded unless they ask a great many questions. -/
  writable : request.WellFormed → request.questions.length ≤ 252 →
    Answered s request.id (attempt n ⟨.tcp address, none⟩ request).1
  unwritable : request.encode? = none → attempt n ⟨.tcp address, none⟩ request =
    Step.fail (bare (.invalidRequest "Failed to serialize DNS message"))
  tcp : (attempt n' ⟨.tcp address, some proxy⟩ request).1 =
    (attempt n ⟨.tcp address, none⟩ request).1
  udp : (attempt n' ⟨.udp address, some proxy⟩ request).1 =
    (attempt n ⟨.tcp address, none⟩ request).1

/-- All calls for a request that can be encoded come to the same framed exchange. -/
theorem Tunnels.attempt_eq (h : Tunnels n n' address proxy s t)
    (hencode : request.encode? = some bytes) {c : Caller} {m : Network}
    (hc : m = n ∧ c = ⟨.tcp address, none⟩ ∨
      m = n' ∧ (c = ⟨.tcp address, some proxy⟩ ∨ c = ⟨.udp address, some proxy⟩)) :
    (attempt m c request).1 = (askFramed request bytes address s).1.mapError bare := by
  obtain ⟨hdirect, hproxied⟩ := h.askTcp_eq request (Message.length_le_of_encode? hencode)
  rw [attempt_of_encode? hencode]
  obtain ⟨rfl, rfl⟩ | ⟨rfl, rfl | rfl⟩ := hc
  · rw [← hdirect]
    rfl
  · rw [← hproxied]
    rfl
  · rw [← hproxied]
    rfl

theorem Tunnels.answered (h : Tunnels n n' address proxy s t)
    (hencode : request.encode? = some bytes) :
    Answered s request.id (attempt n ⟨.tcp address, none⟩ request).1 := by
  rw [h.attempt_eq hencode (.inl ⟨rfl, rfl⟩)]
  exact answered_askFramed (Message.length_le_of_encode? hencode) h.room.1

theorem Tunnels.carried (h : Tunnels n n' address proxy s t) (request : Message) :
    Carried n n' address proxy s request := by
  have hproxied : ∀ c : Caller, c = ⟨.tcp address, some proxy⟩ ∨ c = ⟨.udp address, some proxy⟩ →
      (attempt n' c request).1 = (attempt n ⟨.tcp address, none⟩ request).1 := by
    intro c hc
    cases hencode : request.encode? with
    | none => rw [attempt_of_unwritable hencode, attempt_of_unwritable hencode]
    | some bytes =>
      rw [h.attempt_eq hencode (.inr ⟨rfl, hc⟩), h.attempt_eq hencode (.inl ⟨rfl, rfl⟩)]
  refine ⟨fun _ hencode => h.answered hencode, fun hrequest hquestions => ?_,
    fun hencode => attempt_of_unwritable hencode _ _, hproxied _ (.inl rfl), hproxied _ (.inr rfl)⟩
  obtain ⟨bytes, hencode⟩ := hrequest.exists_encode? hquestions
  exact h.answered hencode

end Caller

end SplitDns
