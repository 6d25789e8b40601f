import SplitDns.Message.Encode

/-!
# Queries and replies

A query to a server carries the question of a request and the records that came along with it,
under an id of its own. The reply to a request is an answer stamped with what belongs to the
request.
-/

namespace SplitDns.Message

/-- The query for a question of a request, with recursion desired. -/
def queryFor (q : Question) (request : Message) (id : UInt16) : Message where
  header := { Header.blank id false 0 with recursionDesired := true }
  questions := [q]
  answers := []
  authorities := []
  additionals := request.additionals
  edns := request.edns

/-- The EDNS section of a reply: there is one exactly when the request has one. -/
def stampEdns (request answer : Option Edns) : Option Edns :=
  request.map answer.getD

/-- The reply to a request that an answer makes. -/
def stamp (request answer : Message) : Message :=
  { answer with
    header :=
      { answer.header with
        id := request.header.id
        response := true
        opcode := request.header.opcode
        recursionDesired := request.header.recursionDesired
        recursionAvailable := true }
    questions := request.questions
    edns := stampEdns request.edns answer.edns }

/-- An answer with one record. -/
def ofRecord (request : Message) (r : Record) : Message :=
  { bare (Header.blank request.id true request.header.opcode) with answers := [r] }

/-- An answer that repeats the questions of a query and gives addresses for the first of them. -/
def ofAddresses (query : Message) (ips : List Ipv4) (ttl : UInt32) (truncated : Bool) : Message :=
  { bare { Header.blank query.id true 0 with truncated := truncated } with
    questions := query.questions
    answers := (query.questions.take 1).flatMap fun q =>
      ips.map fun ip => ⟨q.name, RecordType.a, inClass, ttl, .ipv4 ip⟩ }

end SplitDns.Message
