import SplitDns.Text.Utf8

/-!
# Text files

Rule lists, hosts files and settings are read as UTF-8 text from files that may be missing.
-/

namespace SplitDns

/-- The contents of files by path. -/
abbrev Files := Text → Option Bytes

inductive FileFault where
  | missing
  | notUtf8
  deriving DecidableEq, Repr, Inhabited

def FileFault.reason : FileFault → String
  | missing => "No such file or directory (os error 2)"
  | notUtf8 => "stream did not contain valid UTF-8"

def Files.readText (files : Files) (path : Text) : Except FileFault Text :=
  match files path with
  | none => .error .missing
  | some bs =>
    match Utf8.decode? bs with
    | none => .error .notUtf8
    | some t => .ok t

end SplitDns
