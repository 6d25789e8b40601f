/-!
# Failures

What can go wrong while a query is answered, and what can go wrong with the settings. The detail
of a failure is text for people; decisions look at the constructor only.
-/

namespace SplitDns

inductive Failure where
  | invalidRequest (detail : String)
  | invalidRecord (detail : String)
  | invalidResponse (detail : String)
  | transport (detail : String)
  | timeout (server : String)
  | truncated (server : String)
  | proxy (detail : String)
  | allServersFailed (group : String)
  | groupNotFound (group : String)
  | recursiveQuery (domain : String)
  | addressSet (set address reason : String)
  | io (detail : String)
  | config (detail : String)
  deriving DecidableEq, Repr, Inhabited

namespace Failure

def message : Failure → String
  | invalidRequest detail => s!"Invalid request: {detail}"
  | invalidRecord detail => s!"Invalid DNS record: {detail}"
  | invalidResponse detail => s!"Invalid DNS response: {detail}"
  | transport detail => s!"Transport error: {detail}"
  | timeout server => s!"Transport timeout talking to {server}"
  | truncated server => s!"Truncated response from {server}"
  | proxy detail => s!"Proxy error: {detail}"
  | allServersFailed group => s!"All upstream servers of group '{group}' failed"
  | groupNotFound group => s!"Group not found: {group}"
  | recursiveQuery domain => s!"Recursive query detected: {domain}"
  | addressSet set address reason => s!"Address set '{set}' rejected {address}: {reason}"
  | io detail => s!"I/O error: {detail}"
  | config detail => s!"Configuration error: {detail}"

/-- Failures that arise before anything is sent. -/
def isInvalidRequest : Failure → Bool
  | invalidRequest _ => true
  | _ => false

end Failure

/-- Why settings cannot be used. -/
inductive SettingsFailure where
  | unreadable (file reason : String)
  | malformed (detail : String)
  | invalid (detail : String)
  deriving DecidableEq, Repr, Inhabited

def SettingsFailure.message : SettingsFailure → String
  | unreadable file reason => s!"Failed to read config file {file}: {reason}"
  | malformed detail => s!"Failed to parse config: {detail}"
  | invalid detail => s!"Configuration validation error: {detail}"

end SplitDns
