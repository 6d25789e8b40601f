import SplitDns.Settings.Read
import SplitDns.Text.Files

/-!
# Loading settings

Settings come from a file that is named, else from one of the usual files, else they are the
standard ones. The command line may set some of them.
-/

namespace SplitDns.Settings

/-- The settings that a document gives, brought into normal form. -/
def parse (t : Text) : Except SettingsFailure Settings :=
  match (Toml.parse? t).bind Read.ofTable? with
  | some s => .ok s.normal
  | none => .error (.malformed "")

/-- What the command line sets in place of the file. -/
structure Overrides where
  listen : Option Text
  logLevel : Option Text
  deriving DecidableEq, Repr, Inhabited

def Overrides.apply (o : Overrides) (s : Settings) : Settings :=
  { s with
    listen := o.listen.getD s.listen
    logging := { s.logging with level := o.logLevel.getD s.logging.level } }

def localFile : Text :=
  "sieve-dns.toml".toList

def systemFile : Text :=
  "/etc/sieve-dns/config.toml".toList

/-- The file to read: the one that was named, or the first of the usual ones that exists. -/
def file? (files : Files) (named : Option Text) : Option Text :=
  named.or ([localFile, systemFile].find? fun path => (files path).isSome)

def readFile (files : Files) (path : Text) : Except SettingsFailure Settings :=
  match files.readText path with
  | .error fault => .error (.unreadable (String.ofList path) fault.reason)
  | .ok t => parse t

def load (files : Files) (named : Option Text) (overrides : Overrides) :
    Except SettingsFailure Settings := do
  let s ← (file? files named).elim (.ok standard) (readFile files)
  return (overrides.apply s).normal

/-- Settings that can be used. -/
def loadValid (files : Files) (named : Option Text) (overrides : Overrides) :
    Except SettingsFailure Settings := do
  let s ← load files named overrides
  match s.fault? with
  | some fault => .error fault.failure
  | none => return s

end SplitDns.Settings
