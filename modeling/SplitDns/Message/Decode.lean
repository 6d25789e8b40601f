import SplitDns.Message.Data

/-!
# Decoding messages

A message is decoded from its octets; octets after the counted records are ignored. The OPT record
becomes the EDNS section and gives the upper bits of the response code.
-/

namespace SplitDns

namespace Header

def bit (b : UInt8) (mask : UInt8) : Bool :=
  b &&& mask != 0

/-- The header that two octets of flags describe; the reserved bit is dropped. -/
def ofFlags (id : UInt16) (high low : UInt8) : Header where
  id := id
  response := bit high 0x80
  opcode := ⟨high.toNat / 8 % 16, Nat.mod_lt _ (by decide)⟩
  authoritative := bit high 0x04
  truncated := bit high 0x02
  recursionDesired := bit high 0x01
  recursionAvailable := bit low 0x80
  authenticData := bit low 0x20
  checkingDisabled := bit low 0x10
  rcode := ⟨low.toNat % 16, Nat.lt_of_lt_of_le (Nat.mod_lt _ (by decide)) (by decide)⟩

/-- Replaces the bits of the response code above the lower four. -/
def withRcodeHigh (h : Header) (high : UInt8) : Header :=
  { h with
    rcode :=
      ⟨high.toNat * 16 + h.rcode.val % 16, by
        have := high.toNat_lt
        have := Nat.mod_lt h.rcode.val (y := 16) (by decide)
        omega⟩ }

/-- The bits of the response code above the lower four. -/
def rcodeHigh (h : Header) : UInt8 :=
  UInt8.ofNat (h.rcode.val / 16)

end Header

/-- A record as it stands on the wire. -/
inductive Entry where
  | record (r : Record)
  | edns (e : Edns)
  deriving DecidableEq, Repr

namespace Entry

/-- Records of these types stand in the additional section only. -/
def additionalTypes : List UInt16 :=
  [24, RecordType.opt, 250]

def ednsReader (name : Name) (payload : UInt16) (ttl : UInt32) (data : Bytes) : Option Edns := do
  let options ← Edns.options? data
  if name.labels.isEmpty then
    return {
      payload := max 512 payload
      rcodeHigh := (ttl >>> 24).toUInt8
      version := (ttl >>> 16).toUInt8
      flags := ttl.toUInt16
      options }
  else none

/-- What follows the fixed fields of a record: data of `size` octets. -/
def bodyReader (whole : Bytes) (name : Name) (type dnsClass : UInt16) (ttl : UInt32)
    (size : UInt16) : Reader Entry := do
  if type = RecordType.opt then
    let data ← Reader.take size.toNat
    let some e := ednsReader name dnsClass ttl data | failure
    return edns e
  else if size = 0 then
    return record ⟨name, type, dnsClass, ttl, .empty⟩
  else
    let data ← Reader.within size.toNat (RecordData.reader whole type)
    return record ⟨name, type, dnsClass, ttl, data⟩

def reader (whole : Bytes) : Reader Entry := do
  let name ← Reader.name whole
  let type ← Reader.word16
  let dnsClass ← Reader.word16
  let ttl ← Reader.word32
  let size ← Reader.word16
  bodyReader whole name type dnsClass ttl size

/-- The records of a section other than the additional one. -/
def plain? : List Entry → Option (List Record)
  | [] => some []
  | record r :: es =>
    if additionalTypes.contains r.type then none else (plain? es).map (r :: ·)
  | edns _ :: _ => none

/-- The records of the additional section, and its EDNS sections. -/
def parts : List Entry → List Record × List Edns
  | [] => ([], [])
  | record r :: es => (r :: (parts es).1, (parts es).2)
  | edns e :: es => ((parts es).1, e :: (parts es).2)

end Entry

namespace Question

def reader (whole : Bytes) : Reader Question := do
  let name ← Reader.name whole
  let type ← Reader.word16
  let dnsClass ← Reader.word16
  return ⟨name, type, dnsClass⟩

end Question

namespace Message

def reader (whole : Bytes) : Reader Message := do
  let id ← Reader.word16
  let high ← Reader.octet
  let low ← Reader.octet
  let questionCount ← Reader.word16
  let answerCount ← Reader.word16
  let authorityCount ← Reader.word16
  let additionalCount ← Reader.word16
  let header := Header.ofFlags id high low
  let questions ← Reader.times (Question.reader whole) questionCount.toNat
  let some answers := Entry.plain? (← Reader.times (Entry.reader whole) answerCount.toNat)
    | failure
  let some authorities := Entry.plain? (← Reader.times (Entry.reader whole) authorityCount.toNat)
    | failure
  let (additionals, sections) :=
    Entry.parts (← Reader.times (Entry.reader whole) additionalCount.toNat)
  match sections with
  | [] => return ⟨header, questions, answers, authorities, additionals, none⟩
  | [e] =>
    return ⟨header.withRcodeHigh e.rcodeHigh, questions, answers, authorities, additionals, some e⟩
  | _ => failure

def decode? (bs : Bytes) : Option Message :=
  ((reader bs).run ⟨0, bs⟩).map (·.1)

end Message

end SplitDns
