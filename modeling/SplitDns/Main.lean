import SplitDns.Cli.Run

/-!
# The program

Reads the files that a run needs, prints what the run reports, and answers requests. Requests come
from standard input and replies go to standard output, one datagram a line in hexadecimal digits;
the end of the input interrupts the program.
-/

namespace SplitDns.Cli

/-- The largest datagram taken from clients; longer ones are cut. -/
def largestDatagram : Nat := 4096

def usageText : String :=
  s!"Usage: {programName} [-c FILE] [-l ADDRESS] [--log-level LEVEL]"

def fileBytes (path : Text) : IO (Option Bytes) := do
  try
    return some (← IO.FS.readBinFile (String.ofList path)).toList
  catch _ =>
    return none

/-- The files at some paths; the others count as missing. -/
def filesAt (paths : List Text) : IO (List (Text × Option Bytes)) :=
  paths.mapM fun path => do return (path, ← fileBytes path)

def filesOf (known : List (Text × Option Bytes)) : Files :=
  fun path => (known.lookup path).join

/-- A host that has files only. -/
def hostOf (files : Files) : Host :=
  ⟨files, fun _ => .missing, Network.unreachable, fun _ => none⟩

def printLog (session : Session) (lines : List LogLine) : IO Unit :=
  lines.forM fun line =>
    if session.json then
      IO.eprintln s!"\x7b\"level\":\"{line.level.name}\",\"message\":{line.message.quote}\x7d"
    else IO.eprintln s!"{line.level.name} {line.message}"

/-- Answers the datagrams of the input, with ids for queries counted from `id`. -/
partial def answerAll (host : Host) (service : Service) (id : UInt16) (w : World Caller) :
    IO Unit := do
  let line ← (← IO.getStdin).getLine
  if line.isEmpty then return
  let bytes := ((Hex.read? (Text.trim line.toList)).getD []).take largestDatagram
  let w := { w with now := (← IO.monoMsNow) / 1000, events := [] }
  let (_, w') := service.resolver.handleDatagram (service.surroundings host) id bytes w
  (Event.datagrams w'.events).forM fun reply => IO.println (String.ofList (Hex.text reply))
  answerAll host service (id + 1) w'

def runSession (host : Host) (session : Session) : IO Unit := do
  printLog session session.log
  match session.launch with
  | .help => IO.println usageText
  | .version => IO.println s!"{programName} {programVersion}"
  | .usage => IO.eprintln usageText
  | .failed report => report.forM IO.eprintln
  | .serving service _ =>
    answerAll host service 0 (service.world 0)
    printLog session session.closing

end SplitDns.Cli

open SplitDns SplitDns.Cli in
def main (args : List String) : IO UInt32 := do
  let args := args.map String.toList
  let settings ← filesAt (settingsFiles args)
  let lists ← filesAt (listFiles (filesOf settings) args)
  let host := hostOf (filesOf (settings ++ lists))
  let session := session host args
  runSession host session
  return session.launch.exitCode.toUInt32
