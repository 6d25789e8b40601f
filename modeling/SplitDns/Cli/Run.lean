import SplitDns.Cli.Arguments
import SplitDns.Service.Assembly

/-!
# Running the program

The program reads its arguments and settings, starts the service, and listens until it is
interrupted. What it prints and logs on the way is known before it listens.
-/

namespace SplitDns.Cli

def programName : String :=
  "sieve-dns"

def programVersion : String :=
  "0.3.0"

/-- How a run begins: it ends at once, or it serves. -/
inductive Launch where
  | help
  | version
  | usage
  | failed (report : List String)
  | serving (service : Service) (address : SocketAddr)

structure Session where
  /-- What is logged until the program ends or listens. -/
  log : List LogLine
  /-- What is logged when a program that listens is interrupted. -/
  closing : List LogLine
  /-- Whether the log consists of JSON lines. -/
  json : Bool
  launch : Launch

namespace Session

/-- The log as far as its level shows it. -/
def ofLog (s : Settings) (log closing : List LogLine) (launch : Launch) : Session :=
  let level := (LogLevel.parse? s.logging.level).getD .info
  ⟨LogLine.shown level log, LogLine.shown level closing,
    Text.lower s.logging.format == "json".toList, launch⟩

/-- A session that logs nothing. -/
def quiet (launch : Launch) : Session :=
  ⟨[], [], false, launch⟩

end Session

/-- How a failure is reported. -/
def report (message : String) : List String :=
  [s!"Error: {message}"]

def reportStart (e : StartFailure) : List String :=
  [s!"Error: {e.context}", "", "Caused by:", s!"    {e.cause.message}"]

/-- The first lines of a log. -/
def opening (s : Settings) : List LogLine :=
  let level := (LogLevel.parse? s.logging.level).getD .info
  [⟨.info, s!"Logging initialized at level: {level.name}"⟩,
    ⟨.info, s!"Starting Sieve DNS v{programVersion}"⟩]

/-- The last lines of the log of a run that was interrupted. -/
def closing : List LogLine :=
  [⟨.info, "Shutdown signal received"⟩, ⟨.info, "Server shutdown complete"⟩]

def listen (host : Host) (s : Settings) (service : Service) (log : List LogLine) : Session :=
  match s.listenAddress with
  | .error fault => .ofLog s log [] (.failed (report fault.failure.message))
  | .ok address =>
    match host.bindFault? address with
    | some reason => .ofLog s log [] (.failed (report reason))
    | none =>
      .ofLog s (log ++ [⟨.info, "DNS server listening on UDP"⟩]) closing (.serving service address)

def serve (host : Host) (s : Settings) : Session :=
  let started := Service.start host s
  let log := opening s ++ started.log
  match started.result with
  | .error e => .ofLog s log [] (.failed (reportStart e))
  | .ok service => listen host s service log

/-- The files that arguments may make the program look for settings in. -/
def settingsFiles (args : List Text) : List Text :=
  match parse args with
  | .run options => options.config.toList ++ [Settings.localFile, Settings.systemFile]
  | _ => []

/-- The files that settings make the program read. -/
def listFiles (files : Files) (args : List Text) : List Text :=
  match parse args with
  | .run options =>
    match Settings.loadValid files options.config options.overrides with
    | .ok s => s.ruleList.toList ++ s.hostsFiles
    | .error _ => []
  | _ => []

/-- A run of the program, up to the point where it ends or listens. -/
def session (host : Host) (args : List Text) : Session :=
  match parse args with
  | .help => .quiet .help
  | .version => .quiet .version
  | .usage => .quiet .usage
  | .run options =>
    match Settings.loadValid host.files options.config options.overrides with
    | .error e => .quiet (.failed (report e.message))
    | .ok s => serve host s

/-- The exit code; a program that listens ends well when it is interrupted. -/
def Launch.exitCode : Launch → UInt8
  | help => 0
  | version => 0
  | usage => 2
  | failed _ => 1
  | serving _ _ => 0

end SplitDns.Cli
