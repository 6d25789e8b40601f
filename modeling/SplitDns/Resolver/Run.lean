import SplitDns.AddressSet.Memory
import SplitDns.Cache.Basic
import SplitDns.Transport.Caller

/-!
# Runs

The handling of one request as a tree of actions: each of them looks into the cache, asks a server,
stores into the cache, adds an address to a set or writes a reply, and what comes next depends on
what a lookup or a server gave. Runs change a world step by step, so that several of them can take
turns on one world.
-/

namespace SplitDns

/-- How a request ends when it does not fail. -/
inductive Outcome where
  | hosts
  | cached
  /-- No server gave an answer lately, and nothing is sent. -/
  | negativeCached
  | forwarded (group : Text)
  deriving DecidableEq, Repr, Inhabited

/-- What a server does about a query: after some milliseconds, or never, the call ends. -/
structure ServerReply where
  delay : Option Nat
  result : Except CallFailure Message
  deriving Repr, Inhabited

namespace ServerReply

def inTime (timeout : Nat) (r : ServerReply) : Bool :=
  r.delay.any (· ≤ timeout)

/-- The answer that comes in time, be it a truncated one. -/
def answer? (timeout : Nat) (r : ServerReply) : Option Message :=
  if r.inTime timeout then
    match r.result with
    | .ok m => some m
    | .error f => f.part
  else none

end ServerReply

/-- The address set of a group and the lifetime of what is added to it. -/
structure SetBinding where
  name : Text
  ttl : UInt32
  deriving DecidableEq, Repr, Inhabited

/-- The handling of a request; servers are known by values of type `σ`. -/
inductive Run (σ : Type) where
  | done (result : Except Failure Outcome)
  | lookUp (key : CacheKey) (next : Lookup → Run σ)
  | ask (server : σ) (query : Message) (next : ServerReply → Run σ)
  | store (key : CacheKey) (answer : Option Message) (next : Run σ)
  | add (group : Text) (set : SetBinding) (ip : Ipv4) (next : Run σ)
  | write (reply : Message) (next : Run σ)

/-- What a run did. -/
inductive Event (σ : Type) where
  | lookedUp (key : CacheKey) (result : Lookup)
  | asked (server : σ) (query : Message) (reply : ServerReply)
  | stored (key : CacheKey) (answer : Option Message)
  | added (group : Text) (set : SetBinding) (ip : Ipv4)
  /-- A reply was offered to the client's side, which took it or not. -/
  | wrote (reply : Message) (taken : Bool)
  deriving Repr

namespace Event

variable {σ : Type}

def asked? : Event σ → Option (σ × Message)
  | asked server query _ => some (server, query)
  | _ => none

def added? : Event σ → Option (SetBinding × Ipv4)
  | added _ set ip => some (set, ip)
  | _ => none

def wrote? : Event σ → Option Message
  | wrote reply _ => some reply
  | _ => none

def delivered? : Event σ → Option Message
  | wrote reply true => some reply
  | _ => none

def isMiss : Event σ → Bool
  | lookedUp _ .miss => true
  | _ => false

end Event

/-- What runs share: the cache, the clock in seconds, the address sets in memory by group, and the
events so far, earliest first. -/
structure World (σ : Type) where
  cache : Cache
  now : Nat
  sets : List (Text × MemorySet)
  events : List (Event σ)

/-- How servers, address sets and the client's side behave; servers may know what happened before. -/
structure Surroundings (σ : Type) where
  reply : List (Event σ) → σ → Message → ServerReply
  accepts : SetBinding → Ipv4 → Bool
  takes : Message → Bool

namespace World

variable {σ : Type}

def note (w : World σ) (e : Event σ) : World σ :=
  { w with events := w.events ++ [e] }

def lookUp (w : World σ) (key : CacheKey) : Lookup × World σ :=
  let (result, cache) := w.cache.get w.now key
  (result, { w with cache := cache }.note (.lookedUp key result))

def ask (env : Surroundings σ) (w : World σ) (server : σ) (query : Message) :
    ServerReply × World σ :=
  let reply := env.reply w.events server query
  (reply, w.note (.asked server query reply))

def store (w : World σ) (key : CacheKey) (answer : Option Message) : World σ :=
  { w with cache := w.cache.set w.now key answer }.note (.stored key answer)

/-- Adds to the sets of a group that are kept in memory. -/
def addTo (now : Nat) (group : Text) (set : SetBinding) (ip : Ipv4) :
    Text × MemorySet → Text × MemorySet :=
  fun (g, s) => if g = group then (g, s.add now ip set.ttl) else (g, s)

/-- Adds an address to the set of a group; a refusal has no effect but the attempt. -/
def add (env : Surroundings σ) (w : World σ) (group : Text) (set : SetBinding) (ip : Ipv4) :
    World σ :=
  let sets := if env.accepts set ip then w.sets.map (addTo w.now group set ip) else w.sets
  { w with sets := sets }.note (.added group set ip)

/-- Offers a reply; when it is not taken the run goes on as if it was. -/
def write (env : Surroundings σ) (w : World σ) (reply : Message) : World σ :=
  w.note (.wrote reply (env.takes reply))

end World

namespace Run

variable {σ : Type}

/-- One action of a run; nothing when it is done. -/
def step (env : Surroundings σ) : Run σ → World σ → Option (Run σ × World σ)
  | done _, _ => none
  | lookUp key next, w => some (next (w.lookUp key).1, (w.lookUp key).2)
  | ask server query next, w =>
    some (next (w.ask env server query).1, (w.ask env server query).2)
  | store key answer next, w => some (next, w.store key answer)
  | add group set ip next, w => some (next, w.add env group set ip)
  | write reply next, w => some (next, w.write env reply)

/-- All actions of a run, one after the other. -/
def exec (env : Surroundings σ) : Run σ → World σ → Except Failure Outcome × World σ
  | done result, w => (result, w)
  | lookUp key next, w => exec env (next (w.lookUp key).1) (w.lookUp key).2
  | ask server query next, w =>
    exec env (next (w.ask env server query).1) (w.ask env server query).2
  | store key answer next, w => exec env next (w.store key answer)
  | add group set ip next, w => exec env next (w.add env group set ip)
  | write reply next, w => exec env next (w.write env reply)

/-- Asks servers in order until one gives an answer in time. -/
def dispatch (timeout : Nat) (query : Message) (next : Option Message → Run σ) :
    List σ → Run σ
  | [] => next none
  | server :: rest =>
    ask server query fun reply =>
      match reply.answer? timeout with
      | some m => next (some m)
      | none => dispatch timeout query next rest

/-- Adds addresses to a set, in order. -/
def addAll (group : Text) (set : SetBinding) (next : Run σ) : List Ipv4 → Run σ
  | [] => next
  | ip :: ips => add group set ip (addAll group set next ips)

end Run

end SplitDns
