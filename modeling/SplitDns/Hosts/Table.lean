import SplitDns.Domain
import SplitDns.Net.Address
import SplitDns.Text.Files
import SplitDns.Failure

/-!
# Hosts tables

A hosts table gives addresses for names, in the order in which they were entered and each once. It
answers in the text form of a record, `NAME 60 IN A 10.0.0.1`.
-/

namespace SplitDns

/-- The address families that questions can ask for. -/
inductive Family where
  | v4
  | v6
  deriving DecidableEq, Repr, Inhabited

namespace Family

def ofType? (type : UInt16) : Option Family :=
  if type = 1 then some v4 else if type = 28 then some v6 else none

def text : Family → Text
  | v4 => ['A']
  | v6 => ['A', 'A', 'A', 'A']

def has : Family → IpAddr → Bool
  | v4, .v4 _ => true
  | v6, .v6 _ => true
  | _, _ => false

end Family

structure HostsTable where
  entries : List (Text × List IpAddr)
  deriving DecidableEq, Repr, Inhabited

namespace HostsTable

def empty : HostsTable :=
  ⟨[]⟩

/-- The form in which names are entered and looked up. -/
def key (name : Text) : Text :=
  Domain.canonical (Text.trim name)

def addresses? (t : HostsTable) (name : Text) : Option (List IpAddr) :=
  t.entries.lookup (key name)

/-- Enters an address under a key, which is new without addresses. -/
def enter (k : Text) (ip : IpAddr) : List (Text × List IpAddr) → List (Text × List IpAddr)
  | [] => [(k, [ip])]
  | (k', ips) :: r =>
    if k' = k then (k', if ips.contains ip then ips else ips ++ [ip]) :: r
    else (k', ips) :: enter k ip r

/-- Names that are empty in canonical form are not entered. -/
def insert (t : HostsTable) (name : Text) (ip : IpAddr) : HostsTable :=
  if (key name).isEmpty then t else ⟨enter (key name) ip t.entries⟩

def size (t : HostsTable) : Nat :=
  t.entries.length

/-- Pairs of names and address texts; pairs without an address are left out. -/
def ofPairs (pairs : List (Text × Text)) : HostsTable :=
  pairs.foldl
    (fun t (name, ip) => (IpAddr.parse? (Text.trim ip)).elim t (t.insert name)) empty

/-! ## Hosts files -/

/-- The address and the names of a line, up to a `#`. -/
def line? (line : Text) : Option (IpAddr × List Text) :=
  match Text.words (line.takeWhile (· != '#')) with
  | [] => none
  | address :: names => (IpAddr.parse? address).map (·, names)

def addLine (t : HostsTable) (line : Text) : HostsTable :=
  match line? line with
  | none => t
  | some (ip, names) => names.foldl (fun t name => t.insert name ip) t

def ofText (t : Text) : HostsTable :=
  (Text.lines t).foldl addLine empty

def load (files : Files) (path : Text) : Except Failure HostsTable :=
  match files.readText path with
  | .error fault =>
    .error (.io s!"Failed to read hosts file {String.ofList path}: {fault.reason}")
  | .ok t => .ok (ofText t)

/-! ## Answers -/

/-- The first address of a family. -/
def lookup? (t : HostsTable) (name : Text) (family : Family) : Option IpAddr :=
  (t.addresses? name).bind (·.find? family.has)

/-- Seconds for which answers from hosts tables are valid. -/
def ttl : Nat := 60

def recordText (name : Text) (family : Family) (ip : IpAddr) : Text :=
  Text.join [' '] [name, Decimal.text ttl, "IN".toList, family.text, ip.text]

def record? (t : HostsTable) (name : Text) (family : Family) : Option Text :=
  (t.lookup? name family).map (recordText name family)

end HostsTable

end SplitDns
