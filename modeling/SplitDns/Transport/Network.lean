import SplitDns.Transport.Framing
import SplitDns.Transport.Socks

/-!
# Networks

What a host can reach. Addresses are dialled, names looked up, streams secured and requests posted;
each may fail with a reason or stay without an answer. Everything sent is listed as activity.
-/

namespace SplitDns

/-- How an attempt ends. -/
inductive Attempt (α : Type) where
  | done (value : α)
  | failed (reason : String)
  /-- No answer in time. -/
  | silent
  deriving Repr, Inhabited

/-- The answer to a posted request: its status and its body. -/
structure HttpAnswer where
  status : Nat
  body : Attempt Bytes
  deriving Repr, Inhabited

/-- What leaves a host. -/
inductive Activity where
  | dialled (address : Text)
  | wrote (bytes : Bytes)
  | datagram (address : SocketAddr) (bytes : Bytes)
  | posted (url : Text) (body : Bytes)
  deriving DecidableEq, Repr, Inhabited

structure Network where
  lookup : Text → UInt16 → Attempt (List SocketAddr)
  /-- A stream to the first of the addresses that takes it. -/
  connect : List SocketAddr → Attempt Stream
  /-- Whether datagrams can go to an address. -/
  associate : SocketAddr → Attempt Unit
  /-- The datagram that comes back for one sent. -/
  query : SocketAddr → Bytes → Attempt Bytes
  /-- A stream secured for a server name, with the certificate checked or not. -/
  secure : Text → Bool → Stream → Attempt Stream
  post : Option Text → Text → Bytes → Attempt HttpAnswer

namespace Network

/-- Why no address is found in a text. -/
inductive AddressFault where
  | noPort
  | badPort
  deriving DecidableEq, Repr, Inhabited

def AddressFault.reason : AddressFault → String
  | noPort => "invalid socket address"
  | badPort => "invalid port value"

/-- The addresses that a text names: itself when it is one, else those of the host before its last
colon. -/
def resolve (n : Network) (t : Text) : Attempt (List SocketAddr) :=
  match SocketAddr.parse? t with
  | some a => .done [a]
  | none =>
    match Text.cutLast? ':' t with
    | none => .failed AddressFault.noPort.reason
    | some (host, port) =>
      match Decimal.word16? port with
      | none => .failed AddressFault.badPort.reason
      | some port => n.lookup host port

def dial (n : Network) (t : Text) : Attempt Stream :=
  match n.resolve t with
  | .done addresses => n.connect addresses
  | .failed reason => .failed reason
  | .silent => .silent

def noRoute : String :=
  "Network is unreachable (os error 101)"

/-- The network of a host without any route. -/
def unreachable : Network where
  lookup _ _ :=
    .failed "failed to lookup address information: Temporary failure in name resolution"
  connect _ := .failed noRoute
  associate _ := .failed noRoute
  query _ _ := .failed noRoute
  secure _ _ _ := .failed noRoute
  post _ _ _ := .failed noRoute

end Network

end SplitDns
