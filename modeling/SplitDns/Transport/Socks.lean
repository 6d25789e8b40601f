import SplitDns.Transport.Stream
import SplitDns.Message.Word
import SplitDns.Net.Address
import SplitDns.Text.Utf8
import SplitDns.Failure

/-!
# SOCKS5

Opening a tunnel through a proxy (RFC 1928) without authentication: the greeting, a CONNECT request
for a socket address or a host with a port, and the reply, of which the bound address is skipped.
-/

namespace SplitDns.Socks

def version : UInt8 := 5

def greeting : Bytes :=
  [version, 1, 0]

/-- What a tunnel leads to. -/
inductive Target where
  | address (a : SocketAddr)
  | host (name : Text) (port : UInt16)
  deriving DecidableEq, Repr, Inhabited

inductive Fault where
  | target (t : Text)
  | targetHost (host : Text)
  | writeGreeting (cause : StreamFault)
  | readMethod (cause : StreamFault)
  | version (v : UInt8)
  | noMethod
  | method (m : UInt8)
  | writeRequest (cause : StreamFault)
  | readReply (cause : StreamFault)
  | replyVersion (v : UInt8)
  | refused (code : UInt8)
  | addressType (t : UInt8)
  | readDomainLength (cause : StreamFault)
  | readBound (cause : StreamFault)
  deriving DecidableEq, Repr, Inhabited

/-- What a reply code means. -/
def replyText (code : UInt8) : String :=
  match code with
  | 0 => "succeeded"
  | 1 => "general SOCKS server failure"
  | 2 => "connection not allowed by ruleset"
  | 3 => "network unreachable"
  | 4 => "host unreachable"
  | 5 => "connection refused"
  | 6 => "TTL expired"
  | 7 => "command not supported"
  | 8 => "address type not supported"
  | _ => "unknown error"

namespace Fault

def octetText (b : UInt8) : String :=
  "0x" ++ String.ofList (Hex.octet b)

def detail : Fault → String
  | target t => s!"Invalid proxy target '{String.ofList t}'"
  | targetHost h => s!"Invalid proxy target host '{String.ofList h}'"
  | writeGreeting cause => s!"write methods failed: {cause.text}"
  | readMethod cause => s!"read method response failed: {cause.text}"
  | version v => s!"invalid SOCKS version {octetText v}"
  | noMethod => "proxy accepts none of the offered auth methods"
  | method m => s!"unsupported auth method {octetText m}"
  | writeRequest cause => s!"write connect request failed: {cause.text}"
  | readReply cause => s!"read reply header failed: {cause.text}"
  | replyVersion v => s!"invalid SOCKS version {octetText v} in reply"
  | refused code => s!"proxy refused CONNECT: {replyText code}"
  | addressType t => s!"invalid address type {octetText t} in reply"
  | readDomainLength cause => s!"read domain len failed: {cause.text}"
  | readBound cause => s!"read bound address failed: {cause.text}"

def failure (fault : Fault) : Failure :=
  .proxy fault.detail

/-- Whether the proxy just fell silent. -/
def isStalled : Fault → Bool
  | writeGreeting .stalled | readMethod .stalled | writeRequest .stalled | readReply .stalled
  | readDomainLength .stalled | readBound .stalled => true
  | _ => false

end Fault

/-! ## Requests -/

/-- A socket address, or a host of 1 to 255 bytes before the last colon and a port after it. -/
def target (t : Text) : Except Fault Target :=
  match SocketAddr.parse? t with
  | some a => .ok (.address a)
  | none =>
    match (Text.cutLast? ':' t).bind fun (host, p) => (Decimal.word16? p).map (host, ·) with
    | none => .error (.target t)
    | some (host, port) =>
      if host.isEmpty || 255 < Utf8.size host then .error (.targetHost host)
      else .ok (.host host port)

/-- Address type, address and port. -/
def targetOctets : Target → Bytes
  | .address (.v4 ip port) => 1 :: ip.octets ++ Word.octets16 port
  | .address (.v6 ip _ port) => 4 :: ip.octets ++ Word.octets16 port
  | .host name port =>
    3 :: UInt8.ofNat (Utf8.size name) :: Utf8.encode name ++ Word.octets16 port

def requestOctets (t : Target) : Bytes :=
  [version, 1, 0] ++ targetOctets t

def request (t : Text) : Except Fault Bytes :=
  (target t).map requestOctets

/-! ## Negotiation -/

/-- Skips the bound address, which has a length of its own when it is a domain. -/
def skipBound (type : UInt8) : Exchange Fault Unit := do
  let size : Nat ←
    if type = 1 then pure 4
    else if type = 4 then pure 16
    else if type = 3 then do
      let bs ← Exchange.mapError .readDomainLength (Exchange.read 1)
      pure (bs.headD 0).toNat
    else Exchange.fail (.addressType type)
  let _ ← Exchange.mapError .readBound (Exchange.read (size + 2))
  pure ()

def readReply : Exchange Fault Unit := do
  let reply ← Exchange.mapError .readReply (Exchange.read 4)
  match reply with
  | [v, code, _, type] =>
    if v ≠ version then Exchange.fail (.replyVersion v)
    else if code ≠ 0 then Exchange.fail (.refused code)
    else skipBound type
  | _ => Exchange.fail (.readReply .endOfStream)

/-- Opens a tunnel on a stream that leads to a proxy. -/
def negotiate (request : Bytes) : Exchange Fault Unit := do
  Exchange.mapError .writeGreeting (Exchange.write greeting)
  let choice ← Exchange.mapError .readMethod (Exchange.read 2)
  match choice with
  | [v, method] =>
    if v ≠ version then Exchange.fail (.version v)
    else if method = 255 then Exchange.fail .noMethod
    else if method ≠ 0 then Exchange.fail (.method method)
    else do
      Exchange.mapError .writeRequest (Exchange.write request)
      readReply
  | _ => Exchange.fail (.readMethod .endOfStream)

end SplitDns.Socks
