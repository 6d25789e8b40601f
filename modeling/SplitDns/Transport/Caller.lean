import SplitDns.Endpoint
import SplitDns.Message.Encode
import SplitDns.Transport.Http
import SplitDns.Transport.Network
import SplitDns.Transport.ProxyUrl
import SplitDns.Transport.ServerIdentity

/-!
# Calling servers

A caller asks one server over one protocol, directly or through a SOCKS5 proxy. Over a proxy plain
datagrams are replaced by framed messages on the tunnel. A call gives the server's answer or a
failure, and lists what was sent.
-/

namespace SplitDns

/-- A call that failed, with the answer that came nevertheless, when it was truncated. -/
structure CallFailure where
  cause : Failure
  part : Option Message
  deriving DecidableEq, Repr, Inhabited

namespace CallFailure

def message (f : CallFailure) : String :=
  if f.part.isSome then s!"{f.cause.message} (partial response available)" else f.cause.message

end CallFailure

namespace Message

/-- The bytes of a message as they are sent. -/
def toSend (m : Message) : Except Failure Bytes :=
  match m.encode? with
  | some bs => .ok bs
  | none => .error (.invalidRequest "Failed to serialize DNS message")

/-- The answer to the query with an id. -/
def parseAnswer (bs : Bytes) (id : UInt16) : Except Failure Message :=
  match decode? bs with
  | none => .error (.invalidResponse "Failed to parse DNS response")
  | some m =>
    if m.id = id then .ok m
    else
      .error (.invalidResponse
        s!"Response ID {m.id.toNat} does not match query ID {id.toNat}")

end Message

/-- An endpoint and the proxy through which it is reached. -/
structure Caller where
  endpoint : Endpoint
  proxy : Option Text
  deriving DecidableEq, Repr, Inhabited

namespace Caller

/-- A TLS server needs a name it can prove, and an HTTPS client a proxy with a usable address. -/
def of (endpoint : Endpoint) (proxy : Option Text) : Except Failure Caller :=
  match endpoint, proxy with
  | .tls _ name _, _ =>
    if ServerIdentity.isValid name then .ok ⟨endpoint, proxy⟩
    else
      .error (.config s!"Invalid TLS server name '{String.ofList name}': invalid dns name")
  | .https _, some address =>
    if ProxyUrl.isUsable address then .ok ⟨endpoint, proxy⟩
    else .error (.config s!"Invalid SOCKS5 proxy 'socks5h://{String.ofList address}'")
  | _, _ => .ok ⟨endpoint, proxy⟩

def target (c : Caller) : Text :=
  c.endpoint.target

end Caller

/-! ## Calls -/

/-- What a step of a call came to, and what it sent. -/
abbrev Step (ε α : Type) := Except ε α × List Activity

namespace Step

def ok {ε α : Type} (a : α) : Step ε α :=
  (.ok a, [])

def fail {ε α : Type} (e : ε) : Step ε α :=
  (.error e, [])

def andThen {ε α β : Type} (x : Step ε α) (f : α → Step ε β) : Step ε β :=
  match x with
  | (.ok a, sent) =>
    let (result, more) := f a
    (result, sent ++ more)
  | (.error e, sent) => (.error e, sent)

def mapError {ε ε' α : Type} (f : ε → ε') (x : Step ε α) : Step ε' α :=
  (x.1.mapError f, x.2)

end Step

namespace Caller

/-- The bytes that an exchange wrote, as activity. -/
def wrote (before after : Stream) : List Activity :=
  let bs := after.written.drop before.written.length
  if bs.isEmpty then [] else [.wrote bs]

def exchange {ε α : Type} (x : Exchange ε α) (s : Stream) : Step ε (α × Stream) :=
  let (result, s') := x s
  (result.map (·, s'), wrote s s')

/-- A stream to an address. -/
def dialled (n : Network) (address : Text) (failed : String → Failure) : Step Failure Stream :=
  match n.dial address with
  | .done s => (.ok s, [.dialled address])
  | .failed reason => Step.fail (failed reason)
  | .silent => (.error (.timeout (String.ofList address)), [.dialled address])

/-- A tunnel through a proxy to an address. -/
def tunnel (n : Network) (proxy address : Text) : Step Failure Stream :=
  match Socks.request address with
  | .error fault => Step.fail fault.failure
  | .ok request =>
    (dialled n proxy fun reason =>
        .proxy s!"Failed to connect to SOCKS5 proxy {String.ofList proxy}: {reason}").andThen
      fun s =>
        ((exchange (Socks.negotiate request) s).mapError fun fault =>
          if fault.isStalled then .timeout (String.ofList proxy) else fault.failure).andThen
        fun (_, s) => Step.ok s

/-- A stream to an address, by way of the proxy when there is one. -/
def stream (n : Network) (proxy : Option Text) (address : Text) : Step Failure Stream :=
  match proxy with
  | some proxy => tunnel n proxy address
  | none =>
    dialled n address fun reason =>
      .transport s!"Failed to connect to {String.ofList address}: {reason}"

/-- One framed message out and one in, parsed. -/
def askFramed (request : Message) (bytes : Bytes) (address : Text) (s : Stream) :
    Step Failure Message :=
  ((exchange (Framing.exchange bytes) s).mapError (Framing.Fault.failure address)).andThen
    fun (answer, _) => (Message.parseAnswer answer request.id, [])

def askTcp (n : Network) (proxy : Option Text) (request : Message) (bytes : Bytes)
    (address : Text) : Step Failure Message :=
  (stream n proxy address).andThen (askFramed request bytes address)

def secured (n : Network) (address name : Text) (skipVerify : Bool) (s : Stream) :
    Step Failure Stream :=
  match n.secure name skipVerify s with
  | .done s => Step.ok s
  | .failed reason =>
    Step.fail (.transport s!"TLS handshake failed with {String.ofList address}: {reason}")
  | .silent => Step.fail (.timeout (String.ofList address))

def askTls (n : Network) (proxy : Option Text) (request : Message) (bytes : Bytes)
    (address name : Text) (skipVerify : Bool) : Step Failure Message :=
  ((stream n proxy address).andThen (secured n address name skipVerify)).andThen
    (askFramed request bytes address)

/-- The first address of a server that gets datagrams. -/
def datagramAddress (n : Network) (address : Text) : Except Failure SocketAddr :=
  match n.resolve address with
  | .done (a :: _) => .ok a
  | .done [] => .error (.transport s!"No address found for {String.ofList address}")
  | .failed reason =>
    .error (.transport s!"Failed to resolve {String.ofList address}: {reason}")
  | .silent => .error (.timeout (String.ofList address))

/-- The largest datagram taken as an answer; longer ones are cut. -/
def maxDatagram : Nat := 4096

def exchangeDatagram (n : Network) (address : Text) (bytes : Bytes) : Step Failure Bytes :=
  match datagramAddress n address with
  | .error e => Step.fail e
  | .ok a =>
    match n.associate a with
    | .failed reason =>
      Step.fail
        (.transport s!"Failed to connect UDP socket to {String.ofList a.text}: {reason}")
    | .silent => Step.fail (.timeout (String.ofList address))
    | .done () =>
      let sent := [Activity.datagram a bytes]
      match n.query a bytes with
      | .done answer => (.ok (answer.take maxDatagram), sent)
      | .failed reason =>
        (.error (.transport
          s!"Failed to receive UDP response from {String.ofList a.text}: {reason}"), sent)
      | .silent => (.error (.timeout (String.ofList address)), sent)

/-- An answer over a datagram counts only when it is complete. -/
def complete (address : Text) (m : Message) : Except CallFailure Message :=
  if m.header.truncated then .error ⟨.truncated (String.ofList address), some m⟩ else .ok m

def bare (e : Failure) : CallFailure :=
  ⟨e, none⟩

def askUdp (n : Network) (request : Message) (bytes : Bytes) (address : Text) :
    Step CallFailure Message :=
  (((exchangeDatagram n address bytes).andThen fun answer =>
    (Message.parseAnswer answer request.id, [])).mapError bare).andThen
    fun m => (complete address m, [])

def askHttps (n : Network) (proxy : Option Text) (request : Message) (bytes : Bytes)
    (url : Text) : Step Failure Message :=
  let name := String.ofList url
  let sent := [Activity.posted url bytes]
  match n.post proxy url bytes with
  | .failed reason => Step.fail (.transport s!"DoH request to {name} failed: {reason}")
  | .silent => (.error (.timeout name), sent)
  | .done answer =>
    if Http.isSuccess answer.status then
      match answer.body with
      | .done body => (Message.parseAnswer body request.id, sent)
      | .failed reason =>
        (.error (.transport s!"Failed to read DoH response from {name}: {reason}"), sent)
      | .silent => (.error (.timeout name), sent)
    else
      (.error (.transport
        s!"DoH server {name} returned HTTP {answer.status}: {Http.reason answer.status}"), sent)

/-- Requests that no server can answer are refused before anything is sent. -/
def refusal? (c : Caller) (request : Message) : Option Failure :=
  if request.questions.isEmpty then some (.invalidRequest "DNS request carries no question")
  else if c.target.isEmpty then some (.invalidRequest "Upstream address is empty")
  else none

def ask (n : Network) (c : Caller) (request : Message) (bytes : Bytes) :
    Step CallFailure Message :=
  match c.endpoint with
  | .udp address =>
    if c.proxy.isSome then (askTcp n c.proxy request bytes address).mapError bare
    else askUdp n request bytes address
  | .tcp address => (askTcp n c.proxy request bytes address).mapError bare
  | .tls address name skip =>
    (askTls n c.proxy request bytes address name skip).mapError bare
  | .https url => (askHttps n c.proxy request bytes url).mapError bare

def call (n : Network) (c : Caller) (request : Message) : Step CallFailure Message :=
  match c.refusal? request with
  | some e => Step.fail (bare e)
  | none =>
    match request.toSend with
    | .error e => Step.fail (bare e)
    | .ok bytes => ask n c request bytes

end Caller

end SplitDns
