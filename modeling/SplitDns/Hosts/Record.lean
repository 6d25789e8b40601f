import SplitDns.Name.Parse
import SplitDns.Message.Basic
import SplitDns.Failure

/-!
# Records in text form

Hosts tables answer with text of the form `NAME TTL IN TYPE ADDRESS`, with type `A` or `AAAA`. The
class and the type may be written in letters of any case.
-/

namespace SplitDns.HostRecord

/-- Why a text is no record. -/
inductive Fault where
  | fields (text : Text)
  | dnsClass (dnsClass text : Text)
  | ttl (ttl text : Text)
  | name (name : Text)
  | ipv4 (value : Text)
  | ipv6 (value : Text)
  | type (type : Text)
  deriving DecidableEq, Repr, Inhabited

namespace Fault

def detail : Fault → String
  | fields t => s!"Expected '<name> <ttl> IN <type> <ip>', got '{String.ofList t}'"
  | dnsClass c t => s!"Unsupported class '{String.ofList c}' in '{String.ofList t}'"
  | ttl n t => s!"Invalid TTL '{String.ofList n}' in '{String.ofList t}'"
  | name n => s!"Invalid name '{String.ofList n}'"
  | ipv4 v => s!"Invalid IPv4 address '{String.ofList v}'"
  | ipv6 v => s!"Invalid IPv6 address '{String.ofList v}'"
  | type t => s!"Unsupported record type '{String.ofList t}'"

def failure (fault : Fault) : Failure :=
  .invalidRecord fault.detail

end Fault

/-- The name with a dot at its end. -/
def closed (name : Text) : Text :=
  if name.getLast? = some '.' then name else name ++ ['.']

/-- Type and data of a record. -/
def data (type value : Text) : Except Fault (UInt16 × RecordData) :=
  let type := Text.upper type
  if type = ['A'] then
    match Ipv4.parse? value with
    | some ip => .ok (RecordType.a, .ipv4 ip)
    | none => .error (.ipv4 value)
  else if type = "AAAA".toList then
    match Ipv6.parse? value with
    | some ip => .ok (RecordType.aaaa, .ipv6 ip)
    | none => .error (.ipv6 value)
  else .error (.type type)

def parse (text : Text) : Except Fault Record :=
  match Text.words text with
  | [name, ttl, dnsClass, type, value] =>
    if Text.upper dnsClass ≠ "IN".toList then .error (.dnsClass dnsClass text)
    else
      match Decimal.word32? ttl, Name.parse? (closed name) with
      | none, _ => .error (.ttl ttl text)
      | some _, none => .error (.name (closed name))
      | some seconds, some owner =>
        (data type value).map fun (t, d) => ⟨owner, t, inClass, seconds, d⟩
  | _ => .error (.fields text)

end SplitDns.HostRecord
