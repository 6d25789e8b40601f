import SplitDns.Net.Ipv4
import SplitDns.Failure

/-!
# Address sets of the kernel

Sets that the packet filter looks addresses up in are made and filled by running the command
`ipset`.
-/

namespace SplitDns.KernelSet

/-- How a run of the command ended. -/
inductive Outcome where
  | done
  | missing
  | refused (complaint : Text)
  deriving DecidableEq, Repr, Inhabited

/-- Arguments that create a set unless it exists. -/
def createArguments (name : Text) : List Text :=
  ["create".toList, name, "hash:ip".toList, "timeout".toList, "0".toList, "-exist".toList]

/-- Arguments that add an address; a timeout of zero is left to the set. -/
def addArguments (name : Text) (ip : Ipv4) (ttl : UInt32) : List Text :=
  ["add".toList, name, ip.text] ++
    (if ttl = 0 then [] else ["timeout".toList, Decimal.text ttl.toNat]) ++ ["-exist".toList]

/-- The failure that an outcome means for a set and an address. -/
def failure? (name address : Text) : Outcome → Option Failure
  | .done => none
  | .missing =>
    some (.addressSet (String.ofList name) (String.ofList address)
      "No such file or directory (os error 2)")
  | .refused complaint =>
    some (.addressSet (String.ofList name) (String.ofList address)
      (String.ofList (Text.trim complaint)))

def createFailure? (name : Text) (o : Outcome) : Option Failure :=
  failure? name ['-'] o

def addFailure? (name : Text) (ip : Ipv4) (o : Outcome) : Option Failure :=
  failure? name ip.text o

/-- The command: how it answers to arguments. -/
abbrev Command := List Text → Outcome

end SplitDns.KernelSet
