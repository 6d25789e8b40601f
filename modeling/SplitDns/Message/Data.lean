import SplitDns.Message.Basic
import SplitDns.Message.Cursor

/-!
# Reading record data

The data of a record is read by its type. It uses exactly the length the record states. Data
without names is checked where its form is known and kept as octets.
-/

namespace SplitDns

namespace RecordData

/-- Data of these types can only be empty. -/
def bareTypes : List UInt16 :=
  [0, 251, 252, 255]

/-- Length octets, each followed by that many octets, to the very end. -/
def isStrings : Bytes → Bool
  | [] => true
  | b :: r =>
    match _h : cutOctets? b.toNat r with
    | some (_, t) => isStrings t
    | none => false
termination_by bs => bs.length
decreasing_by
  have := length_le_of_cutOctets? _h
  simp
  omega

def isAlnum (b : UInt8) : Bool :=
  (48 ≤ b && b ≤ 57) || (65 ≤ b && b ≤ 90) || (97 ≤ b && b ≤ 122)

/-- Flags, a tag of 1 to 15 letters and digits, and a value. -/
def isAuthorization : Bytes → Bool
  | _ :: size :: r =>
    match cutOctets? size.toNat r with
    | some (tag, _) => 1 ≤ tag.length && tag.length ≤ 15 && tag.all isAlnum
    | none => false
  | _ => false

/-- Two strings and nothing else. -/
def isHostInfo : Bytes → Bool
  | size :: r =>
    match cutOctets? size.toNat r with
    | some (_, second :: t) => t.length == second.toNat
    | _ => false
  | [] => false

/-- Whether data without names has the form of its type. Certificates, keys and fingerprints follow
a few octets that say what they are. -/
def isFormed (type : UInt16) (bs : Bytes) : Bool :=
  match type with
  | 13 => isHostInfo bs
  | 16 => isStrings bs
  | 37 => 6 ≤ bs.length
  | 44 => 2 ≤ bs.length
  | 52 => 3 ≤ bs.length
  | 53 => 3 ≤ bs.length
  | 257 => isAuthorization bs
  | _ => !bareTypes.contains type

/-- Takes all that is left. -/
def remaining : Reader Bytes := fun c =>
  some (c.rest, ⟨c.pos + c.rest.length, []⟩)

/-- The forms of data that is not empty. -/
inductive Form where
  | ipv4
  | ipv6
  | name
  | mail
  | service
  | authority
  | octets
  deriving DecidableEq, Repr

def Form.ofType (type : UInt16) : Form :=
  if type = 1 then ipv4
  else if type = 28 then ipv6
  else if type = 2 ∨ type = 5 ∨ type = 12 then name
  else if type = 15 then mail
  else if type = 33 then service
  else if type = 6 then authority
  else octets

/-- Data of a given type that is not empty. -/
def reader (whole : Bytes) (type : UInt16) : Reader RecordData :=
  match Form.ofType type with
  | .ipv4 => do
    let some ip := Ipv4.ofOctets? (← Reader.take 4) | failure
    return ipv4 ip
  | .ipv6 => do
    let some ip := Ipv6.ofOctets? (← Reader.take 16) | failure
    return ipv6 ip
  | .name => do
    return name (← Reader.name whole)
  | .mail => do
    let preference ← Reader.word16
    return mail preference (← Reader.name whole)
  | .service => do
    let priority ← Reader.word16
    let weight ← Reader.word16
    let port ← Reader.word16
    return service priority weight port (← Reader.name whole)
  | .authority => do
    let primary ← Reader.name whole
    let mailbox ← Reader.name whole
    let serial ← Reader.word32
    let refresh ← Reader.word32
    let retry ← Reader.word32
    let expire ← Reader.word32
    return authority primary mailbox serial refresh retry expire (← Reader.word32)
  | .octets => do
    let bs ← remaining
    if isFormed type bs then return octets bs else failure

end RecordData

/-! ## EDNS options -/

namespace Edns

/-- The octets of an address that a prefix of the given length needs. -/
def prefixOctets (bits : UInt8) : Nat :=
  (bits.toNat + 7) / 8

/-- As many octets of an address of `width` octets as a prefix needs; octets after those are left
out. The prefix may not be longer than the address. -/
def address? (width : Nat) (bits : UInt8) (bs : Bytes) : Option Bytes :=
  if width < prefixOctets bits then none else (cutOctets? (prefixOctets bits) bs).map (·.1)

/-- A client subnet: address family, prefix length, scope and address. -/
def subnet? : Bytes → Option Bytes
  | 0 :: 1 :: bits :: scope :: r =>
    (address? 4 bits r).map fun a => 0 :: 1 :: bits :: scope :: a
  | 0 :: 2 :: bits :: scope :: r =>
    (address? 16 bits r).map fun a => 0 :: 2 :: bits :: scope :: a
  | _ => none

/-- Subnet options are kept in their shortest form. -/
def option? (code : UInt16) (bs : Bytes) : Option (UInt16 × Bytes) :=
  if code = 8 then (subnet? bs).map (code, ·) else some (code, bs)

/-- Options of data of `total` octets after those in `found`. Data that ends inside an option, or
after its code, makes all options void; a length over the total is an error. -/
def optionsFrom? (total : Nat) (found : List (UInt16 × Bytes)) :
    Bytes → Option (List (UInt16 × Bytes))
  | [] => some found
  | [_, _] => some []
  | a :: b :: c :: d :: r =>
    let size := (Word.ofOctets16 c d).toNat
    if total < size then none
    else
      match _h : cutOctets? size r with
      | none => some []
      | some (value, t) =>
        match option? (Word.ofOctets16 a b) value with
        | none => none
        | some o => optionsFrom? total (found ++ [o]) t
  | _ => none
termination_by bs => bs.length
decreasing_by
  have := length_le_of_cutOctets? _h
  simp
  omega

def options? (bs : Bytes) : Option (List (UInt16 × Bytes)) :=
  optionsFrom? bs.length [] bs

/-- Whether all options can be written again: a subnet holds all octets of its prefix. -/
def writable (e : Edns) : Bool :=
  e.options.all fun (code, bs) =>
    code != 8 || (match bs with
      | _ :: _ :: bits :: _ :: a => prefixOctets bits ≤ a.length
      | _ => false)

end Edns

end SplitDns
