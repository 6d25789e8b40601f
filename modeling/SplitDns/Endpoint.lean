import SplitDns.Net.Address
import SplitDns.Text.Utf8
import SplitDns.Failure

/-!
# Endpoints of DNS servers

A server is configured as a plain address (`8.8.8.8`, `8.8.8.8/tcp`), as a DNS-over-TLS address
with the name in the server's certificate (`1.1.1.1@one.one.one.one`) or as a DNS-over-HTTPS URL.
Addresses without a port get the default port of their protocol.
-/

namespace SplitDns

/-! ## Default ports -/

namespace HostPort

/-- A host and a port number. A host in brackets ends at the first closing bracket; any other host
has no colon. -/
def parse? : Text → Option (Text × UInt16)
  | '[' :: r => do
    let (host, rest) ← Text.cutFirst? ']' r
    let port ← Decimal.word16? (← Text.after? [':'] rest)
    return (host, port)
  | t => do
    let (host, digits) ← Text.cutLast? ':' t
    if host.contains ':' then none
    else return (host, ← Decimal.word16? digits)

/-- An address in brackets. -/
def bracketed? (t : Text) : Option IpAddr := do
  let inside ← Text.before? [']'] (← Text.after? ['['] t)
  IpAddr.parse? inside

/-- The address itself when it has a port, and with `port` appended otherwise. -/
def withDefault (address : Text) (port : UInt16) : Text :=
  if (SocketAddr.parse? address).isSome then address
  else
    match (IpAddr.parse? address).or (bracketed? address) with
    | some ip => (SocketAddr.of ip port).text
    | none =>
      if (parse? address).isSome then address
      else address ++ ':' :: Decimal.text port.toNat

end HostPort

/-! ## Names and URLs -/

namespace ServerName

def isAlnum (c : Char) : Bool :=
  c.isAlphanum

/-- One to 63 letters, digits and inner hyphens. -/
def isLabel (l : Text) : Bool :=
  !l.isEmpty && l.length ≤ 63 && l.all (fun c => isAlnum c || c == '-') &&
    l.head?.any isAlnum && l.getLast?.any isAlnum

/-- Labels of at most 253 characters in all, perhaps with a closing dot. -/
def isHostname (t : Text) : Bool :=
  let body := (Text.before? ['.'] t).getD t
  body.length ≤ 253 && (Text.split (· == '.') body).all isLabel

/-- A TLS server is named by a host name or an address. -/
def isValid (t : Text) : Bool :=
  (IpAddr.parse? t).isSome || isHostname t

end ServerName

namespace DohUrl

/-- `https://` and `/dns-query` with something in between, on one line. -/
def isValid (t : Text) : Bool :=
  match (Text.after? "https://".toList t).bind (Text.before? "/dns-query".toList) with
  | some middle => !middle.isEmpty && !middle.contains '\n'
  | none => false

end DohUrl

/-! ## Endpoints -/

inductive Endpoint where
  | udp (address : Text)
  | tcp (address : Text)
  | tls (address serverName : Text) (skipVerify : Bool)
  | https (url : Text)
  deriving DecidableEq, Repr, Inhabited

/-- Why a text names no endpoint. -/
inductive EndpointFault where
  | emptyAddress (t : Text)
  | notAddressAtName (t : Text)
  | emptyTlsAddress (t : Text)
  | noServerName (t : Text)
  | badServerName (name t : Text)
  | badUrl (t : Text)
  deriving DecidableEq, Repr, Inhabited

namespace EndpointFault

def detail : EndpointFault → String
  | emptyAddress t => s!"Empty DNS server address '{String.ofList t}'"
  | notAddressAtName t =>
    s!"Invalid DoT server '{String.ofList t}'. Expected 'ADDR@SERVER_NAME'"
  | emptyTlsAddress t => s!"Empty DoT server address in '{String.ofList t}'"
  | noServerName t => s!"DoT server '{String.ofList t}' needs a TLS server name"
  | badServerName name t =>
    s!"Invalid TLS server name '{String.ofList name}' in DoT server '{String.ofList t}'"
  | badUrl t => s!"Invalid DoH URL '{String.ofList t}'. Expected 'https://HOST/dns-query'"

def failure (fault : EndpointFault) : Failure :=
  .config fault.detail

end EndpointFault

namespace Endpoint

def dnsPort : UInt16 := 53

def tlsPort : UInt16 := 853

/-- A plain address; `/tcp` at its end selects TCP instead of UDP. -/
def parsePlain (t : Text) : Except EndpointFault Endpoint :=
  let t := Text.trim t
  match Text.before? "/tcp".toList t with
  | some address =>
    if address.isEmpty then .error (.emptyAddress t)
    else .ok (tcp (HostPort.withDefault address dnsPort))
  | none =>
    if t.isEmpty then .error (.emptyAddress t)
    else .ok (udp (HostPort.withDefault t dnsPort))

/-- An address and a server name parted by the only `@`. -/
def parseTls (t : Text) (skipVerify : Bool) : Except EndpointFault Endpoint :=
  let t := Text.trim t
  match Text.split (· == '@') t with
  | [address, name] =>
    if address.isEmpty then .error (.emptyTlsAddress t)
    else if name.isEmpty then .error (.noServerName t)
    else if ServerName.isValid name then
      .ok (tls (HostPort.withDefault address tlsPort) name skipVerify)
    else .error (.badServerName name t)
  | _ => .error (.notAddressAtName t)

def parseHttps (t : Text) : Except EndpointFault Endpoint :=
  let t := Text.trim t
  if DohUrl.isValid t then .ok (https t) else .error (.badUrl t)

/-- The address or URL that queries go to. -/
def target : Endpoint → Text
  | udp address => address
  | tcp address => address
  | tls address _ _ => address
  | https url => url

def protocol : Endpoint → String
  | udp _ => "UDP"
  | tcp _ => "TCP"
  | tls _ _ _ => "TLS"
  | https _ => "HTTPS"

def text : Endpoint → Text
  | udp address => "udp://".toList ++ address
  | tcp address => "tcp://".toList ++ address
  | tls address name _ => "tls://".toList ++ address ++ '@' :: name
  | https url => url

end Endpoint

end SplitDns
