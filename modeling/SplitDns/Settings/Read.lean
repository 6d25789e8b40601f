import SplitDns.Settings.Basic
import SplitDns.Toml.Document

/-!
# Reading settings

Settings are a TOML document. Keys that are not known are left out and keys that are missing have
default values. A table of known keys can also be written as an array of its values in order.
-/

namespace SplitDns.Settings.Read

open Toml

/-! ## Values -/

def text? : Value → Option Text
  | .string t => some t
  | _ => none

def boolean? : Value → Option Bool
  | .boolean b => some b
  | _ => none

/-- An integer from zero to a bound. -/
def natural? (bound : Nat) : Value → Option Nat
  | .integer (.ofNat n) => if n ≤ bound then some n else none
  | _ => none

def word32? (v : Value) : Option UInt32 :=
  (natural? 4294967295 v).map UInt32.ofNat

def word64? : Value → Option Nat :=
  natural? 18446744073709551615

def items? {α : Type} (item? : Value → Option α) : Value → Option (List α)
  | .array vs => vs.mapM item?
  | _ => none

/-- Whether a value can hold known keys; a date stands for a table without any. -/
def isRecord : Value → Bool
  | .table _ => true
  | .array _ => true
  | .datetime => true
  | _ => false

/-- The value of a known key, which has a place in the order of all keys. -/
def member? (v : Value) (place : Nat) (key : String) : Option Value :=
  match v with
  | .table es => es.lookup key.toList
  | .array vs => vs[place]?
  | _ => none

def memberOr {α : Type} (v : Value) (place : Nat) (key : String) (default : α)
    (read? : Value → Option α) : Option α :=
  match member? v place key with
  | none => some default
  | some v => read? v

/-! ## Names in order -/

/-- The order of texts by their characters. -/
def isBefore : Text → Text → Bool
  | _, [] => false
  | [], _ :: _ => true
  | c :: r, d :: s => c < d || (c == d && isBefore r s)

def insertNamed {α : Type} (name : Text) (a : α) : List (Text × α) → List (Text × α)
  | [] => [(name, a)]
  | (n, b) :: r =>
    if isBefore name n then (name, a) :: (n, b) :: r else (n, b) :: insertNamed name a r

/-- A table of values of one kind, in the order of the names. -/
def named? {α : Type} (item? : Value → Option α) : Value → Option (List (Text × α))
  | .table es => do
    let pairs ← es.mapM fun (k, v) => (item? v).map (k, ·)
    return pairs.foldr (fun (k, a) r => insertNamed k a r) []
  | _ => none

/-! ## Parts -/

def cache? (v : Value) : Option CacheSettings := do
  if !isRecord v then none
  let d := CacheSettings.standard
  return {
    size := ← memberOr v 0 "size" d.size word64?
    minTtl := ← memberOr v 1 "min_ttl" d.minTtl word32?
    maxTtl := ← memberOr v 2 "max_ttl" d.maxTtl word32?
    negativeTtl := ← memberOr v 3 "negative_ttl" d.negativeTtl word32? }

def logging? (v : Value) : Option LogSettings := do
  if !isRecord v then none
  let d := LogSettings.standard
  return {
    level := ← memberOr v 0 "level" d.level text?
    format := ← memberOr v 1 "format" d.format text? }

/-- Both keys are needed. -/
def suffix? (v : Value) : Option SuffixRule := do
  return {
    suffix := ← text? (← member? v 0 "suffix")
    group := ← text? (← member? v 1 "group") }

def backendNamed? (t : Text) : Option SetBackend :=
  if t = "ipset".toList then some .kernel
  else if t = "memory".toList then some .memory
  else none

/-- A name, or a table with the name as its only key and nothing in it. -/
def backend? : Value → Option SetBackend
  | .string t => backendNamed? t
  | .table [(t, .table [])] => backendNamed? t
  | .table [(t, .array [])] => backendNamed? t
  | _ => none

def group? (v : Value) : Option GroupSettings := do
  if !isRecord v then none
  return {
    socks5 := ← memberOr v 0 "socks5" none fun v => (text? v).map some
    ipset := ← memberOr v 1 "ipset" none fun v => (text? v).map some
    ipsetTtl := ← memberOr v 2 "ipset_ttl" 0 word32?
    backend := ← memberOr v 3 "ipset_backend" .kernel backend?
    dns := ← memberOr v 4 "dns" [] (items? text?)
    dot := ← memberOr v 5 "dot" [] (items? text?)
    dotSkipVerify := ← memberOr v 6 "dot_skip_verify" false boolean?
    doh := ← memberOr v 7 "doh" [] (items? text?)
    rules := ← memberOr v 8 "rules" [] (items? text?) }

def ofTable? (es : List (Text × Value)) : Option Settings := do
  let v := Value.table es
  let d := standard
  return {
    listen := ← memberOr v 0 "listen" d.listen text?
    queryTimeout := ← memberOr v 1 "query_timeout" d.queryTimeout word64?
    ruleList := ← memberOr v 2 "gfwlist" none fun v => (text? v).map some
    ruleListBase64 := ← memberOr v 3 "gfwlist_b64" d.ruleListBase64 boolean?
    hostsFiles := ← memberOr v 4 "hosts_files" [] (items? text?)
    hosts := ← memberOr v 5 "hosts" [] (named? text?)
    cache := ← memberOr v 6 "cache" d.cache cache?
    logging := ← memberOr v 7 "logging" d.logging logging?
    suffixes := ← memberOr v 8 "suffix" [] (items? suffix?)
    groups := ← memberOr v 9 "groups" [] (named? group?) }

end SplitDns.Settings.Read
