import SplitDns.Hosts.Record
import SplitDns.Hosts.Table
import SplitDns.Resolver.Reply
import SplitDns.Resolver.Run
import SplitDns.Route

/-!
# The resolver

A request is answered from hosts sources, from the cache, or by the servers of the group that its
domain is routed to. A request that came back is refused. The addresses of an answer go to the
address set of the group.
-/

namespace SplitDns

structure ServerGroup (σ : Type) where
  name : Text
  /-- Asked strictly in order. -/
  servers : List σ
  set : Option SetBinding

/-- Gives the text of a record for a name. -/
abbrev HostsSource := Text → Family → Option Text

def HostsTable.source (t : HostsTable) : HostsSource :=
  t.record?

structure Resolver (σ : Type) where
  router : Router
  /-- Of several groups with one name the last counts. -/
  groups : List (ServerGroup σ)
  /-- Asked in order. -/
  hosts : List HostsSource
  /-- Milliseconds that each server has. -/
  timeout : Nat

/-! ## Groups -/

namespace ServerGroup

variable {σ : Type}

/-- What keeps groups from being usable: `clean` or `dirty` is missing or has no server. -/
def fault? (groups : List (ServerGroup σ)) : Option Failure :=
  [cleanGroup, dirtyGroup].findSome? fun name =>
    match groups.find? (·.name == name) with
    | none => some (.groupNotFound (String.ofList name))
    | some g =>
      if g.servers.isEmpty then
        some (.config s!"Group '{String.ofList name}' has no usable upstream servers")
      else none

end ServerGroup

namespace Resolver

variable {σ : Type}

def standardTimeout : Nat := 2000

def group? (r : Resolver σ) (name : Text) : Option (ServerGroup σ) :=
  (r.groups.filter (·.name == name)).getLast?

/-! ## Hosts -/

/-- The names under which hosts sources are asked for a domain: without the closing dot first. -/
def hostsNames (domain : Text) : List Text :=
  [(Text.before? ['.'] domain).getD domain, domain]

/-- The first text that a source gives for one of the names of a domain. -/
def hostsText? (sources : List HostsSource) (domain : Text) (family : Family) : Option Text :=
  sources.findSome? fun source => (hostsNames domain).findSome? (source · family)

/-- The sources asked, by index, and the names they were asked for. -/
def hostsTrail (domain : Text) (family : Family) : Nat → List HostsSource → List (Nat × Text)
  | _, [] => []
  | i, source :: rest =>
    match hostsNames domain with
    | [] => []
    | first :: others =>
      if (source first family).isSome then [(i, first)]
      else
        (i, first) :: others.map (i, ·) ++
          if (others.findSome? (source · family)).isSome then []
          else hostsTrail domain family (i + 1) rest

/-- The record of hosts sources for a question about addresses. -/
def hostsRecord? (r : Resolver σ) (q : Question) : Except Failure (Option Record) :=
  match (Family.ofType? q.type).bind (hostsText? r.hosts q.name.text) with
  | none => .ok none
  | some text =>
    match HostRecord.parse text with
    | .ok record => .ok (some record)
    | .error fault => .error fault.failure

/-! ## Requests -/

/-- After the servers of a group were asked. -/
def finish (request : Message) (key : CacheKey) (g : ServerGroup σ) (answer : Option Message) :
    Run σ :=
  .store key answer <|
    match answer with
    | none => .done (.error (.allServersFailed (String.ofList g.name)))
    | some m =>
      let reply := .write (Message.stamp request m) (.done (.ok (.forwarded g.name)))
      match g.set with
      | none => reply
      | some set => Run.addAll g.name set reply m.ipv4Answers

/-- After the cache had nothing. -/
def forward (r : Resolver σ) (id : UInt16) (request : Message) (q : Question) (key : CacheKey) :
    Run σ :=
  let decision := r.router.resolve q.name.text
  match r.group? decision.group with
  | none => .done (.error (.groupNotFound (String.ofList decision.group)))
  | some g =>
    Run.dispatch r.timeout (Message.queryFor q request id) (finish request key g) g.servers

/-- After hosts had nothing. -/
def lookUp (r : Resolver σ) (id : UInt16) (request : Message) (q : Question) : Run σ :=
  let key := CacheKey.of q request.extras
  .lookUp key fun
    | .hit m => .write (Message.stamp request m) (.done (.ok .cached))
    | .negative => .done (.ok .negativeCached)
    | .miss => r.forward id request q key

/-- The handling of a request; `id` is that of the query to servers. -/
def run (r : Resolver σ) (id : UInt16) (request : Message) : Run σ :=
  match request.questions with
  | [] => .done (.error (.invalidRequest "DNS request carries no question"))
  | q :: _ =>
    if Domain.isLooping q.name.text then
      .done (.error (.recursiveQuery (String.ofList q.name.text)))
    else
      match r.hostsRecord? q with
      | .error e => .done (.error e)
      | .ok (some record) =>
        .write (Message.stamp request (Message.ofRecord request record)) (.done (.ok .hosts))
      | .ok none => r.lookUp id request q

def execute (r : Resolver σ) (env : Surroundings σ) (id : UInt16) (request : Message)
    (w : World σ) : Except Failure Outcome × World σ :=
  (r.run id request).exec env w

/-! ## What was consulted -/

/-- The hosts sources that a request is looked up in, by index, with the names. -/
def hostsAsked (r : Resolver σ) (request : Message) : List (Nat × Text) :=
  match request.questions with
  | [] => []
  | q :: _ =>
    if Domain.isLooping q.name.text then []
    else (Family.ofType? q.type).elim [] fun f => hostsTrail q.name.text f 0 r.hosts

/-- Who is consulted about the domain of a request that is routed. -/
def consulted (r : Resolver σ) (request : Message) : List Consulted :=
  match request.questions with
  | [] => []
  | q :: _ => (r.router.consult q.name.text).2

/-! ## Datagrams -/

/-- A datagram is answered when it decodes to a query; failures give no outcome. -/
def handleDatagram (r : Resolver σ) (env : Surroundings σ) (id : UInt16) (bytes : Bytes)
    (w : World σ) : Option Outcome × World σ :=
  match Message.decode? bytes with
  | none => (none, w)
  | some request =>
    if request.header.response then (none, w)
    else
      match r.execute env id request w with
      | (.ok outcome, w) => (some outcome, w)
      | (.error _, w) => (none, w)

end Resolver

/-- The datagrams that events send: the replies that are taken and can be encoded. -/
def Event.datagrams {σ : Type} (events : List (Event σ)) : List Bytes :=
  (events.filterMap Event.delivered?).filterMap Message.encode?

end SplitDns
