import SplitDns.Text.Decimal

/-!
# TOML documents

Values, and tables under construction. A table is made by a header, on the path of another header,
or by a dotted key; how it was made decides what may still be added to it. Values of inline tables
and arrays are closed.
-/

namespace SplitDns.Toml

/-- The values of floats and of dates and times are not kept. -/
inductive Value where
  | string (t : Text)
  | integer (n : Int)
  | float
  | boolean (b : Bool)
  | datetime
  | array (items : List Value)
  | table (entries : List (Text × Value))
  deriving Inhabited

/-- How a table came to be. -/
inductive Making where
  | onPath
  | byHeader
  | byKey
  deriving DecidableEq, Repr, Inhabited

inductive Item where
  | value (v : Value)
  | table (making : Making) (entries : List (Text × Item))
  /-- An array of tables, of which the last one is open. -/
  | tables (rows : List (List (Text × Item)))
  deriving Inhabited

abbrev Entries := List (Text × Item)

namespace Entries

/-- Gives a key another item, or a new key its first. -/
def put (k : Text) (item : Item) : Entries → Entries
  | [] => [(k, item)]
  | (k', i) :: r => if k' = k then (k, item) :: r else (k', i) :: put k item r

/-- Sets a dotted key. The tables between are new or were made by other dotted keys. -/
def set? : List Text → Value → Entries → Option Entries
  | [], _, _ => none
  | [k], v, es =>
    match es.lookup k with
    | none => some (put k (.value v) es)
    | some _ => none
  | k :: ks, v, es =>
    match es.lookup k with
    | none => (set? ks v []).map fun sub => put k (.table .byKey sub) es
    | some (.table .byKey sub) => (set? ks v sub).map fun sub => put k (.table .byKey sub) es
    | some _ => none

/-- Changes the table at a path of existing tables. -/
def change? (f : Entries → Option Entries) : List Text → Entries → Option Entries
  | [], es => f es
  | k :: ks, es =>
    match es.lookup k with
    | some (.table making sub) => (change? f ks sub).map fun sub => put k (.table making sub) es
    | some (.tables rows) =>
      match rows.reverse with
      | last :: before =>
        (change? f ks last).map fun last => put k (.tables (last :: before).reverse) es
      | [] => none
    | _ => none

/-- Opens what a header names; `open?` says how the last key is opened. -/
def enter? (openLast : Text → Entries → Option Entries) : List Text → Entries → Option Entries
  | [], _ => none
  | [k], es => openLast k es
  | k :: ks, es =>
    match es.lookup k with
    | none => (enter? openLast ks []).map fun sub => put k (.table .onPath sub) es
    | some (.table making sub) =>
      (enter? openLast ks sub).map fun sub => put k (.table making sub) es
    | some (.tables rows) =>
      match rows.reverse with
      | last :: before =>
        (enter? openLast ks last).map fun last => put k (.tables (last :: before).reverse) es
      | [] => none
    | some (.value _) => none

/-- A table may have a header of its own once, if it was not made by a dotted key. -/
def openTable (k : Text) (es : Entries) : Option Entries :=
  match es.lookup k with
  | none => some (put k (.table .byHeader []) es)
  | some (.table .onPath sub) => some (put k (.table .byHeader sub) es)
  | some _ => none

/-- Each header in double brackets starts another table of an array. -/
def openRow (k : Text) (es : Entries) : Option Entries :=
  match es.lookup k with
  | none => some (put k (.tables [[]]) es)
  | some (.tables rows) => some (put k (.tables (rows ++ [[]])) es)
  | some _ => none

end Entries

mutual

def Item.toValue : Item → Value
  | .value v => v
  | .table _ entries => .table (toValues entries)
  | .tables rows => .array (rowValues rows)

def toValues : List (Text × Item) → List (Text × Value)
  | [] => []
  | (k, i) :: r => (k, i.toValue) :: toValues r

def rowValues : List (List (Text × Item)) → List Value
  | [] => []
  | row :: r => .table (toValues row) :: rowValues r

end

end SplitDns.Toml
