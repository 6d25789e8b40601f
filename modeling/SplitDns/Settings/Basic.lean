import SplitDns.Cache.Basic
import SplitDns.Endpoint
import SplitDns.Route

/-!
# Settings

What the program is told: where it listens, how long it waits, its rule list, hosts, cache, logging,
suffix table and server groups. Tables with names as keys are in the order of the names.
-/

namespace SplitDns

/-- Where the addresses of answers are written. -/
inductive SetBackend where
  | kernel
  | memory
  deriving DecidableEq, Repr, Inhabited

structure GroupSettings where
  /-- The proxy through which all servers of the group are reached. -/
  socks5 : Option Text
  /-- The name of the address set. -/
  ipset : Option Text
  /-- Seconds; zero leaves the lifetime to the set. -/
  ipsetTtl : UInt32
  backend : SetBackend
  dns : List Text
  dot : List Text
  dotSkipVerify : Bool
  doh : List Text
  rules : List Text
  deriving DecidableEq, Repr, Inhabited

namespace GroupSettings

def standard : GroupSettings :=
  ⟨none, none, 0, .kernel, [], [], false, [], []⟩

/-- What each configured server stands for, in the order in which they are asked: plain DNS, then
DNS over TLS, then DNS over HTTPS. -/
def endpoints (g : GroupSettings) : List (Except EndpointFault Endpoint) :=
  g.dns.map Endpoint.parsePlain ++ g.dot.map (Endpoint.parseTls · g.dotSkipVerify) ++
    g.doh.map Endpoint.parseHttps

def validEndpoints (g : GroupSettings) : List Endpoint :=
  g.endpoints.filterMap Except.toOption

def hasRules (g : GroupSettings) : Bool :=
  g.rules.any fun rule => !(Text.trim rule).isEmpty

/-- The lifetime of members of the address set, when it is set. -/
def setTtl (g : GroupSettings) : Option UInt32 :=
  if g.ipsetTtl = 0 then none else some g.ipsetTtl

end GroupSettings

structure LogSettings where
  level : Text
  format : Text
  deriving DecidableEq, Repr, Inhabited

def LogSettings.standard : LogSettings :=
  ⟨"info".toList, "text".toList⟩

structure Settings where
  listen : Text
  /-- Milliseconds that each server has. -/
  queryTimeout : Nat
  /-- The file of the global rule list. -/
  ruleList : Option Text
  ruleListBase64 : Bool
  hostsFiles : List Text
  hosts : List (Text × Text)
  cache : CacheSettings
  logging : LogSettings
  suffixes : List SuffixRule
  groups : List (Text × GroupSettings)
  deriving DecidableEq, Repr, Inhabited

namespace Settings

def standard : Settings where
  listen := "0.0.0.0:53".toList
  queryTimeout := 2000
  ruleList := none
  ruleListBase64 := true
  hostsFiles := []
  hosts := []
  cache := .standard
  logging := .standard
  suffixes := []
  groups := []

/-- A port alone listens on all IPv4 addresses, and the largest TTL is at least the smallest. -/
def normal (s : Settings) : Settings :=
  { s with
    listen := if s.listen.head? = some ':' then "0.0.0.0".toList ++ s.listen else s.listen
    cache := s.cache.normal }

def group? (s : Settings) (name : Text) : Option GroupSettings :=
  s.groups.lookup name

/-! ## Validity -/

/-- Why settings cannot be used. -/
inductive Fault where
  | listen (address : Text)
  | noTimeout
  | noCache
  | noServer (group : Text)
  | emptySuffix (group : Text)
  | unknownGroup (suffix group : Text)
  deriving DecidableEq, Repr, Inhabited

namespace Fault

def detail : Fault → String
  | listen address =>
    s!"Invalid listen address '{String.ofList address}': invalid socket address syntax"
  | noTimeout => "query_timeout cannot be 0"
  | noCache => "cache size cannot be 0"
  | noServer group => s!"Group '{String.ofList group}' needs at least one valid upstream server"
  | emptySuffix group => s!"Empty suffix routed to group '{String.ofList group}'"
  | unknownGroup suffix group =>
    s!"Suffix '{String.ofList suffix}' routes to unknown group '{String.ofList group}'"

def failure (fault : Fault) : SettingsFailure :=
  .invalid fault.detail

end Fault

def listenAddress (s : Settings) : Except Fault SocketAddr :=
  match SocketAddr.parse? s.listen with
  | some a => .ok a
  | none => .error (.listen s.listen)

def hasServer (s : Settings) (group : Text) : Bool :=
  (s.group? group).any fun g => !g.validEndpoints.isEmpty

def suffixFault? (s : Settings) (r : SuffixRule) : Option Fault :=
  if r.canonical.isEmpty then some (.emptySuffix r.group)
  else if (s.group? r.group).isNone then some (.unknownGroup r.suffix r.group)
  else none

/-- The first thing that is wrong with settings. -/
def fault? (s : Settings) : Option Fault :=
  match s.listenAddress with
  | .error fault => some fault
  | .ok _ =>
    if s.queryTimeout = 0 then some .noTimeout
    else if s.cache.size = 0 then some .noCache
    else
      ([cleanGroup, dirtyGroup].find? (!s.hasServer ·)).map Fault.noServer
        |>.or (s.suffixes.findSome? s.suffixFault?)

end Settings

end SplitDns
