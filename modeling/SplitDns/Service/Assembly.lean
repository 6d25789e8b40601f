import SplitDns.AddressSet.Kernel
import SplitDns.Resolver.Basic
import SplitDns.Service.Log
import SplitDns.Settings.Load

/-!
# Assembling the service

Settings become a resolver whose servers are callers, a cache, and address sets. Hosts files and
servers that cannot be used are skipped; a rule list that cannot be loaded, a kernel set that cannot
be made, and groups `clean` or `dirty` without servers keep the service from starting.
-/

namespace SplitDns

/-- What the program finds on the machine it runs on. -/
structure Host where
  files : Files
  /-- The command that manages kernel sets. -/
  ipset : KernelSet.Command
  network : Network
  /-- Why an address cannot be listened on. -/
  bindFault? : SocketAddr → Option String

/-- Why the service does not start: what was tried, and its failure. -/
structure StartFailure where
  context : String
  cause : Failure
  deriving DecidableEq, Repr, Inhabited

/-- A group of servers with what it writes addresses to. -/
structure Member where
  group : ServerGroup Caller
  backend : SetBackend
  memory : Option MemorySet

structure Service where
  resolver : Resolver Caller
  cache : Cache
  members : List Member

/-- A step of starting: its lines of log, the commands that were run, and what it gave. -/
structure Start (α : Type) where
  log : List LogLine
  commands : List (List Text)
  result : Except StartFailure α

namespace Start

def pure {α : Type} (a : α) : Start α :=
  ⟨[], [], .ok a⟩

def say (level : LogLevel) (message : String) : Start Unit :=
  ⟨[⟨level, message⟩], [], .ok ()⟩

def fail {α : Type} (context : String) (cause : Failure) : Start α :=
  ⟨[], [], .error ⟨context, cause⟩⟩

def bind {α β : Type} (x : Start α) (f : α → Start β) : Start β :=
  match x.result with
  | .error e => ⟨x.log, x.commands, .error e⟩
  | .ok a =>
    let y := f a
    ⟨x.log ++ y.log, x.commands ++ y.commands, y.result⟩

/-- Runs the command for kernel sets; a command that is missing does not run. -/
def command (host : Host) (arguments : List Text) : Start KernelSet.Outcome :=
  let outcome := host.ipset arguments
  ⟨[], if outcome = .missing then [] else [arguments], .ok outcome⟩

instance : Monad Start where
  pure := Start.pure
  bind := Start.bind

end Start

namespace Service

/-! ## Router and hosts -/

def startRuleList (host : Host) (s : Settings) : Start (Option RuleList) :=
  match s.ruleList with
  | none => do
    Start.say .info "No rule list configured, unmatched domains go to the clean group"
    return none
  | some path =>
    match RuleList.load host.files path s.ruleListBase64 with
    | .error e => Start.fail s!"Failed to load rule list {String.ofList path}" e
    | .ok list => do
      Start.say .info "Rule list loaded"
      return some list

def startGroupRules : List (Text × GroupSettings) → Start (List (Text × Classifier))
  | [] => return []
  | (name, g) :: rest =>
    if g.hasRules then do
      Start.say .info "Group rules loaded"
      return (name, (RuleList.ofLines g.rules).classifier) :: (← startGroupRules rest)
    else startGroupRules rest

def startRouter (host : Host) (s : Settings) : Start Router := do
  let list ← startRuleList host s
  let rules ← startGroupRules s.groups
  return Router.of s.suffixes rules (list.map RuleList.classifier)

def sayTimes (level : LogLevel) (message : String) : Nat → Start Unit
  | 0 => return ()
  | n + 1 => do
    Start.say level message
    sayTimes level message n

/-- Lines that start with something other than an address. -/
def badHostsLines (t : Text) : Nat :=
  (Text.lines t).countP fun line =>
    (HostsTable.line? line).isNone && !(Text.words (line.takeWhile (· != '#'))).isEmpty

def startHostsFiles (host : Host) : List Text → Start (List HostsSource)
  | [] => return []
  | path :: rest =>
    match HostsTable.load host.files path with
    | .error _ => do
      Start.say .warn "Skipping hosts file"
      startHostsFiles host rest
    | .ok table => do
      let text := ((host.files.readText path).toOption).getD []
      sayTimes .debug "Skipping hosts line with invalid IP" (badHostsLines text)
      Start.say .info "Hosts file loaded"
      return table.source :: (← startHostsFiles host rest)

def startHosts (host : Host) (s : Settings) : Start (List HostsSource) := do
  let bad := s.hosts.countP fun (_, ip) => (IpAddr.parse? (Text.trim ip)).isNone
  sayTimes .warn "Skipping hosts entry with invalid IP" bad
  let files ← startHostsFiles host s.hostsFiles
  return if s.hosts.isEmpty then files else (HostsTable.ofPairs s.hosts).source :: files

/-! ## Groups -/

/-- The callers of a group: those of its endpoints that can be called. -/
def startCallers (proxy : Option Text) :
    List (Except EndpointFault Endpoint) → Start (List Caller)
  | [] => return []
  | .error _ :: rest => do
    Start.say .warn "Skipping invalid upstream"
    startCallers proxy rest
  | .ok endpoint :: rest =>
    match Caller.of endpoint proxy with
    | .error _ => do
      Start.say .warn "Skipping upstream"
      startCallers proxy rest
    | .ok caller => do
      Start.say .info "Upstream configured"
      return caller :: (← startCallers proxy rest)

def startKernelSet (host : Host) (name : Text) : Start Unit := do
  let outcome ← Start.command host (KernelSet.createArguments name)
  match KernelSet.createFailure? name outcome with
  | some e => Start.fail s!"Failed to create ipset '{String.ofList name}'" e
  | none => Start.say .info "ipset ready"

def startSet (host : Host) (g : GroupSettings) (name : Text) : Start (Option MemorySet) := do
  match g.backend with
  | .kernel => do
    startKernelSet host name
    Start.say .info "Address set attached"
    return none
  | .memory => do
    Start.say .info "Address set attached"
    return some (.empty name (g.setTtl.map UInt32.toNat))

def startGroup (host : Host) (name : Text) (g : GroupSettings) : Start Member := do
  let callers ← startCallers g.socks5 g.endpoints
  match g.ipset with
  | none => return ⟨⟨name, callers, none⟩, g.backend, none⟩
  | some set => do
    let memory ← startSet host g set
    return ⟨⟨name, callers, some ⟨set, g.ipsetTtl⟩⟩, g.backend, memory⟩

def startGroups (host : Host) : List (Text × GroupSettings) → Start (List Member)
  | [] => return []
  | (name, g) :: rest => do
    let member ← startGroup host name g
    return member :: (← startGroups host rest)

/-! ## The service -/

def start (host : Host) (s : Settings) : Start Service := do
  Start.say .info "Initializing DNS services"
  let router ← startRouter host s
  let hosts ← startHosts host s
  let members ← startGroups host s.groups
  let groups := members.map (·.group)
  match ServerGroup.fault? groups with
  | some e => Start.fail "Upstream groups are not usable" e
  | none => do
    Start.say .info "Response cache ready"
    return ⟨⟨router, groups, hosts, s.queryTimeout⟩, Cache.empty s.cache.normal, members⟩

/-- The world in which a service starts to answer. -/
def world (s : Service) (now : Nat) : World Caller where
  cache := s.cache
  now := now
  sets := s.members.filterMap fun m => m.memory.map (m.group.name, ·)
  events := []

/-- Callers ask at once; sets in memory accept everything, kernel sets what the command accepts. -/
def surroundings (s : Service) (host : Host) : Surroundings Caller where
  reply _ caller query := ⟨some 0, (caller.call host.network query).1⟩
  accepts set ip :=
    s.members.any (fun m => m.group.set = some set && m.backend = .memory) ||
      host.ipset (KernelSet.addArguments set.name ip set.ttl) = .done
  takes _ := true

/-- The commands that events make run. -/
def commands (s : Service) (host : Host) (events : List (Event Caller)) : List (List Text) :=
  events.flatMap fun
    | .added group set ip =>
      if s.members.any (fun m => m.group.name = group && m.backend = .kernel) then
        (Start.command host (KernelSet.addArguments set.name ip set.ttl)).commands
      else []
    | _ => []

end Service

end SplitDns
