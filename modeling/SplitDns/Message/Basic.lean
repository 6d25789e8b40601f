import SplitDns.Name.Basic
import SplitDns.Net.Address

/-!
# Messages

A DNS message: header, questions, three sections of records and the EDNS section, which on the wire
is an OPT record among the additional ones.
-/

namespace SplitDns

structure Question where
  name : Name
  type : UInt16
  dnsClass : UInt16
  deriving DecidableEq, Repr, Inhabited

namespace RecordType

def a : UInt16 := 1

def aaaa : UInt16 := 28

def opt : UInt16 := 41

end RecordType

/-- The Internet class. -/
def inClass : UInt16 := 1

/-- What a record says. Data of length zero is allowed for every type. Forms that hold no names are
kept as octets. -/
inductive RecordData where
  | empty
  | ipv4 (ip : Ipv4)
  | ipv6 (ip : Ipv6)
  | name (target : Name)
  | mail (preference : UInt16) (exchange : Name)
  | service (priority weight port : UInt16) (target : Name)
  | authority (primary mailbox : Name) (serial refresh retry expire minimum : UInt32)
  | octets (bytes : Bytes)
  deriving DecidableEq, Repr, Inhabited

structure Record where
  name : Name
  type : UInt16
  dnsClass : UInt16
  ttl : UInt32
  data : RecordData
  deriving DecidableEq, Repr, Inhabited

/-- The EDNS section. `rcodeHigh` are the upper eight bits of the response code; the top bit of
`flags` asks for DNSSEC records. -/
structure Edns where
  payload : UInt16
  rcodeHigh : UInt8
  version : UInt8
  flags : UInt16
  options : List (UInt16 × Bytes)
  deriving DecidableEq, Repr, Inhabited

namespace Edns

def dnssecOk (e : Edns) : Bool :=
  32768 ≤ e.flags

/-- The flags below the top one. -/
def reserved (e : Edns) : UInt16 :=
  e.flags &&& 0x7fff

end Edns

structure Header where
  id : UInt16
  response : Bool
  opcode : Fin 16
  authoritative : Bool
  truncated : Bool
  recursionDesired : Bool
  recursionAvailable : Bool
  authenticData : Bool
  checkingDisabled : Bool
  /-- The full response code; a header on the wire holds its lower four bits. -/
  rcode : Fin 4096
  deriving DecidableEq, Repr, Inhabited

structure Message where
  header : Header
  questions : List Question
  answers : List Record
  authorities : List Record
  additionals : List Record
  edns : Option Edns
  deriving DecidableEq, Repr, Inhabited

namespace Header

/-- A header with the given kind and operation and nothing else set. -/
def blank (id : UInt16) (response : Bool) (opcode : Fin 16) : Header where
  id := id
  response := response
  opcode := opcode
  authoritative := false
  truncated := false
  recursionDesired := false
  recursionAvailable := false
  authenticData := false
  checkingDisabled := false
  rcode := 0

end Header

namespace Message

def id (m : Message) : UInt16 :=
  m.header.id

/-- A message without questions, records and EDNS. -/
def bare (header : Header) : Message :=
  ⟨header, [], [], [], [], none⟩

/-- The addresses of the A records among the answers. -/
def ipv4Answers (m : Message) : List Ipv4 :=
  m.answers.filterMap fun r =>
    match r.data with
    | .ipv4 ip => some ip
    | _ => none

/-- The smallest TTL among the answers. -/
def minTtl? (m : Message) : Option UInt32 :=
  (m.answers.map (·.ttl)).min?

end Message

end SplitDns
