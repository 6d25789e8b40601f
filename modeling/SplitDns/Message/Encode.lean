import SplitDns.Message.Decode

/-!
# Encoding messages

Names are abbreviated by a pointer to the earliest place at which the same labels, to their end,
were written before. A message takes at most 65535 octets: a record that does not fit ends its
section and sets the truncation bit.
-/

namespace SplitDns

/-- The offset at which the next octet is written, and the runs of labels written so far with their
offsets, earliest first. -/
structure Place where
  offset : Nat
  runs : List (List Label × Nat)
  deriving DecidableEq, Repr

namespace Place

def start (offset : Nat) : Place :=
  ⟨offset, []⟩

/-- Offsets past this one cannot be pointed to. -/
def reach : Nat := 0x3fff

/-- The size of the largest message. -/
def limit : Nat := 65535

def skip (p : Place) (n : Nat) : Place :=
  { p with offset := p.offset + n }

def offsetOf? (p : Place) (ls : List Label) : Option Nat :=
  (p.runs.find? (·.1 == ls)).map (·.2)

/-- Notes a run of labels at the present offset; `stop` is where the labels of its name end. -/
def note (p : Place) (ls : List Label) (stop : Nat) : Place :=
  if stop < reach then { p with runs := p.runs ++ [(ls, p.offset)] } else p

end Place

def pointer (offset : Nat) : Bytes :=
  [UInt8.ofNat (192 + offset / 256), UInt8.ofNat (offset % 256)]

namespace Name

def labelOctets (l : Label) : Bytes :=
  UInt8.ofNat l.length :: l

/-- Writes labels up to the root or, when `abbreviate` is set, up to a pointer. -/
def writeLabels (abbreviate : Bool) (stop : Nat) : List Label → Place → Bytes × Place
  | [], p => ([0], p.skip 1)
  | l :: ls, p =>
    match p.offsetOf? (l :: ls) with
    | some offset =>
      if abbreviate then (pointer offset, p.skip 2)
      else
        let (bs, q) := writeLabels abbreviate stop ls (p.skip (l.length + 1))
        (labelOctets l ++ bs, q)
    | none =>
      let (bs, q) := writeLabels abbreviate stop ls ((p.note (l :: ls) stop).skip (l.length + 1))
      (labelOctets l ++ bs, q)

/-- Writes a name; there must be space for all of its labels, also when it is abbreviated. -/
def write (abbreviate : Bool) (n : Name) (p : Place) : Option (Bytes × Place) :=
  let stop := p.offset + (wireLength n.labels - 1)
  if Place.limit < stop then none else some (writeLabels abbreviate stop n.labels p)

end Name

namespace RecordData

def write (d : RecordData) (p : Place) : Option (Bytes × Place) :=
  match d with
  | empty => some ([], p)
  | ipv4 ip => some (ip.octets, p.skip 4)
  | ipv6 ip => some (ip.octets, p.skip 16)
  | octets bs => some (bs, p.skip bs.length)
  | name n => n.write true p
  | mail preference n => do
    let (bs, p) ← n.write true (p.skip 2)
    return (Word.octets16 preference ++ bs, p)
  | service priority weight port n => do
    let (bs, p) ← n.write false (p.skip 6)
    return (Word.octets16 priority ++ Word.octets16 weight ++ Word.octets16 port ++ bs, p)
  | authority primary mailbox serial refresh retry expire minimum => do
    let (bs, p) ← primary.write true p
    let (cs, p) ← mailbox.write true p
    return (bs ++ cs ++ [serial, refresh, retry, expire, minimum].flatMap Word.octets32,
      p.skip 20)

/-- The data with its names written in full. -/
def plainOctets : RecordData → Bytes
  | empty => []
  | ipv4 ip => ip.octets
  | ipv6 ip => ip.octets
  | octets bs => bs
  | name n => full n
  | mail preference n => Word.octets16 preference ++ full n
  | service priority weight port n =>
    Word.octets16 priority ++ Word.octets16 weight ++ Word.octets16 port ++ full n
  | authority primary mailbox serial refresh retry expire minimum =>
    full primary ++ full mailbox ++ [serial, refresh, retry, expire, minimum].flatMap Word.octets32
where
  full (n : Name) : Bytes :=
    n.labels.flatMap Name.labelOctets ++ [0]

end RecordData

namespace Question

def write (q : Question) (p : Place) : Option (Bytes × Place) := do
  let (name, p) ← q.name.write true p
  let p := p.skip 4
  if Place.limit < p.offset then none
  else return (name ++ Word.octets16 q.type ++ Word.octets16 q.dnsClass, p)

end Question

namespace Record

/-- Writes a record, or nothing when it does not fit. -/
def write (r : Record) (p : Place) : Option (Bytes × Place) := do
  let (name, p) ← r.name.write true p
  let (data, p) ← r.data.write (p.skip 10)
  if Place.limit < p.offset then none
  else
    return (name ++ Word.octets16 r.type ++ Word.octets16 r.dnsClass ++ Word.octets32 r.ttl ++
      Word.octets16 (UInt16.ofNat data.length) ++ data, p)

end Record

namespace Edns

def optionOctets (o : UInt16 × Bytes) : Bytes :=
  Word.octets16 o.1 ++ Word.octets16 (UInt16.ofNat o.2.length) ++ o.2

def ttl (e : Edns) : UInt32 :=
  e.rcodeHigh.toUInt32 <<< 24 ||| e.version.toUInt32 <<< 16 ||| e.flags.toUInt32

/-- The EDNS section as an OPT record. -/
def record (e : Edns) : Record where
  name := Name.root
  type := RecordType.opt
  dnsClass := e.payload
  ttl := e.ttl
  data := if e.options.isEmpty then .empty else .octets (e.options.flatMap optionOctets)

end Edns

/-- What was written of a section: octets, the number of records, and whether all are there. -/
structure Section where
  octets : Bytes
  count : Nat
  complete : Bool
  deriving DecidableEq, Repr

namespace Section

/-- Writes records until one does not fit. -/
def write : List Record → Place → Section × Place
  | [], p => (⟨[], 0, true⟩, p)
  | r :: rs, p =>
    match r.write p with
    | none => (⟨[], 0, false⟩, p)
    | some (bs, q) =>
      let (s, q) := write rs q
      (⟨bs ++ s.octets, s.count + 1, s.complete⟩, q)

/-- Writes questions, all of them. -/
def writeQuestions : List Question → Place → Option (Bytes × Place)
  | [], p => some ([], p)
  | q :: qs, p => do
    let (bs, p) ← q.write p
    let (cs, p) ← writeQuestions qs p
    return (bs ++ cs, p)

end Section

namespace Header

def flagBit (b : Bool) (mask : UInt8) : UInt8 :=
  if b then mask else 0

def octets (h : Header) : Bytes :=
  Word.octets16 h.id ++
    [flagBit h.response 0x80 ||| UInt8.ofNat (h.opcode.val * 8) ||| flagBit h.authoritative 0x04 |||
        flagBit h.truncated 0x02 ||| flagBit h.recursionDesired 0x01,
      flagBit h.recursionAvailable 0x80 ||| flagBit h.authenticData 0x20 |||
        flagBit h.checkingDisabled 0x10 ||| UInt8.ofNat (h.rcode.val % 16)]

end Header

/-- What follows the header of a message: its questions, and what was written of its sections. -/
structure Body where
  questions : Bytes
  answers : Section
  authorities : Section
  additionals : Section
  /-- The OPT record, which counts among the additional ones. -/
  opt : Section
  deriving DecidableEq, Repr

namespace Body

def sections (b : Body) : List Section :=
  [b.answers, b.authorities, b.additionals, b.opt]

def complete (b : Body) : Bool :=
  b.sections.all (·.complete)

def octets (b : Body) : Bytes :=
  b.questions ++ b.sections.flatMap (·.octets)

end Body

namespace Message

/-- The EDNS section as it is written, with the upper bits of the response code. -/
def writtenEdns (m : Message) : Option Edns :=
  m.edns.map fun e => { e with rcodeHigh := m.header.rcodeHigh }

def body? (m : Message) : Option Body := do
  let (questions, p) ← Section.writeQuestions m.questions (Place.start 12)
  let (answers, p) := Section.write m.answers p
  let (authorities, p) := Section.write m.authorities p
  let (additionals, p) := Section.write m.additionals p
  let (opt, _) := Section.write (m.writtenEdns.toList.map Edns.record) p
  if m.edns.all Edns.writable then return ⟨questions, answers, authorities, additionals, opt⟩
  else none

def encode? (m : Message) : Option Bytes := do
  let b ← m.body?
  let header := { m.header with truncated := m.header.truncated || !b.complete }
  let counts := [m.questions.length, b.answers.count, b.authorities.count,
    b.additionals.count + b.opt.count]
  return header.octets ++ counts.flatMap (fun n => Word.octets16 (UInt16.ofNat n)) ++ b.octets

/-- The records that a request brings along: the additional ones, then its EDNS section. -/
def extras (m : Message) : List Record :=
  m.additionals ++ m.edns.toList.map Edns.record

end Message

end SplitDns
