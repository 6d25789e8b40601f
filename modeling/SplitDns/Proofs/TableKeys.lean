import SplitDns.Settings.Load

/-!
# Keys of tables

No step of reading a document gives a table the same key twice: a key is set where it is missing,
and a table that is there is changed in its place (`Toml.Entries.Keyed.put` and what follows from
it).  So the groups of settings that were loaded have different names
(`Settings.keyed_of_load`).
-/

namespace SplitDns.Toml

/-! ## Tables with different keys -/

/-- Whether a value, when it is a table, has each of its keys once. -/
def Value.Keyed : Value → Prop
  | table es => (es.map Prod.fst).Nodup
  | _ => True

/-- Whether all tables in an item have each of their keys once. -/
inductive Item.Keyed : Item → Prop
  | value {v : Value} (h : v.Keyed) : Keyed (.value v)
  | table {making : Making} {es : Entries} (hkeys : (es.map Prod.fst).Nodup)
      (hitems : ∀ p ∈ es, Keyed p.2) : Keyed (.table making es)
  | tables {rows : List Entries} (hkeys : ∀ es ∈ rows, (es.map Prod.fst).Nodup)
      (hitems : ∀ es ∈ rows, ∀ p ∈ es, Keyed p.2) : Keyed (.tables rows)

namespace Entries

structure Keyed (es : Entries) : Prop where
  keys : (es.map Prod.fst).Nodup
  items : ∀ p ∈ es, p.2.Keyed

theorem keyed_nil : Keyed [] :=
  ⟨List.nodup_nil, fun _ h => absurd h List.not_mem_nil⟩

end Entries

theorem Item.keyed_table {making : Making} {es : Entries} :
    (Item.table making es).Keyed ↔ es.Keyed :=
  ⟨fun h => by cases h with | table hkeys hitems => exact ⟨hkeys, hitems⟩,
    fun h => .table h.keys h.items⟩

theorem Item.keyed_tables {rows : List Entries} :
    (Item.tables rows).Keyed ↔ ∀ es ∈ rows, es.Keyed :=
  ⟨fun h es hes => by cases h with | tables hkeys hitems => exact ⟨hkeys es hes, hitems es hes⟩,
    fun h => .tables (fun es hes => (h es hes).keys) fun es hes => (h es hes).items⟩

namespace Entries

variable {es es' : Entries}

theorem Keyed.of_lookup (h : es.Keyed) {k : Text} {i : Item} (hk : es.lookup k = some i) :
    i.Keyed := by
  obtain ⟨l₁, l₂, rfl, -⟩ := List.lookup_eq_some_iff.1 hk
  exact h.items (k, i) (by simp)

/-! ## Changes of tables -/

theorem mem_of_mem_put {k : Text} {i : Item} {p : Text × Item} (h : p ∈ put k i es) :
    p = (k, i) ∨ p ∈ es := by
  induction es with
  | nil => exact .inl (List.mem_singleton.1 h)
  | cons e rest ih =>
    obtain ⟨k', i'⟩ := e
    unfold put at h
    split at h
    · rcases List.mem_cons.1 h with h | h
      · exact .inl h
      · exact .inr (List.mem_cons_of_mem _ h)
    · rcases List.mem_cons.1 h with rfl | h
      · exact .inr (List.mem_cons_self ..)
      · exact (ih h).imp_right (List.mem_cons_of_mem _)

/-- The new key of an item is the only one that a table may get. -/
theorem nodup_keys_put (h : (es.map Prod.fst).Nodup) (k : Text) (i : Item) :
    ((put k i es).map Prod.fst).Nodup := by
  induction es with
  | nil => simp [put]
  | cons e rest ih =>
    obtain ⟨k', i'⟩ := e
    obtain ⟨hnew, hrest⟩ := List.nodup_cons.1 h
    unfold put
    split
    · next hk =>
      subst hk
      exact h
    · next hk =>
      refine List.nodup_cons.2 ⟨fun hmem => ?_, ih hrest⟩
      obtain ⟨p, hp, hpk⟩ := List.mem_map.1 hmem
      rcases mem_of_mem_put hp with rfl | hp
      · exact hk hpk.symm
      · exact hnew (List.mem_map.2 ⟨p, hp, hpk⟩)

theorem Keyed.put (h : es.Keyed) {i : Item} (hi : i.Keyed) (k : Text) : (put k i es).Keyed := by
  refine ⟨nodup_keys_put h.keys k i, fun p hp => ?_⟩
  rcases mem_of_mem_put hp with rfl | hp
  · exact hi
  · exact h.items p hp

theorem Keyed.set? {v : Value} (hv : v.Keyed) {ks : List Text} (h : es.Keyed)
    (hs : Entries.set? ks v es = some es') : es'.Keyed := by
  induction ks generalizing es es' with
  | nil => cases hs
  | cons k ks ih =>
    cases ks with
    | nil =>
      simp only [Entries.set?] at hs
      split at hs
      · cases hs
        exact h.put (.value hv) k
      · cases hs
    | cons k' ks =>
      simp only [Entries.set?] at hs
      split at hs
      · obtain ⟨sub, hsub, rfl⟩ := Option.map_eq_some_iff.1 hs
        exact h.put (Item.keyed_table.2 (ih keyed_nil hsub)) k
      · next old hold =>
        obtain ⟨sub, hsub, rfl⟩ := Option.map_eq_some_iff.1 hs
        exact h.put (Item.keyed_table.2 (ih (Item.keyed_table.1 (h.of_lookup hold)) hsub)) k
      · cases hs

/-- The last of the tables of an array can be changed in its place. -/
theorem Keyed.put_last {k : Text} {rows before : List Entries} {last last' : Entries}
    (h : es.Keyed) (hk : es.lookup k = some (.tables rows)) (hrows : rows.reverse = last :: before)
    (hlast : last.Keyed → last'.Keyed) :
    (Entries.put k (Item.tables (last' :: before).reverse) es).Keyed := by
  have hkeyed : ∀ row ∈ last :: before, row.Keyed := by
    intro row hrow
    rw [← hrows, List.mem_reverse] at hrow
    exact Item.keyed_tables.1 (h.of_lookup hk) row hrow
  refine h.put (Item.keyed_tables.2 fun row hrow => ?_) k
  rcases List.mem_cons.1 (List.mem_reverse.1 hrow) with rfl | hrow
  · exact hlast (hkeyed last (List.mem_cons_self ..))
  · exact hkeyed row (List.mem_cons_of_mem _ hrow)

/-- What keeps the keys of a table different also keeps those of a table deeper down. -/
theorem Keyed.change? {f : Entries → Option Entries}
    (hf : ∀ {es es'}, Keyed es → f es = some es' → Keyed es') {ks : List Text} (h : es.Keyed)
    (hs : Entries.change? f ks es = some es') : es'.Keyed := by
  induction ks generalizing es es' with
  | nil => exact hf h hs
  | cons k ks ih =>
    simp only [Entries.change?] at hs
    split at hs
    · next old hold =>
      obtain ⟨sub, hsub, rfl⟩ := Option.map_eq_some_iff.1 hs
      exact h.put (Item.keyed_table.2 (ih (Item.keyed_table.1 (h.of_lookup hold)) hsub)) k
    · next rows hold =>
      split at hs
      · next last before hrows =>
        obtain ⟨last', hlast, rfl⟩ := Option.map_eq_some_iff.1 hs
        exact h.put_last hold hrows fun hl => ih hl hlast
      · cases hs
    · cases hs

theorem Keyed.enter? {openLast : Text → Entries → Option Entries}
    (hopen : ∀ {k es es'}, Keyed es → openLast k es = some es' → Keyed es') {ks : List Text}
    (h : es.Keyed) (hs : Entries.enter? openLast ks es = some es') : es'.Keyed := by
  induction ks generalizing es es' with
  | nil => cases hs
  | cons k ks ih =>
    cases ks with
    | nil => exact hopen h hs
    | cons k' ks =>
      simp only [Entries.enter?] at hs
      split at hs
      · obtain ⟨sub, hsub, rfl⟩ := Option.map_eq_some_iff.1 hs
        exact h.put (Item.keyed_table.2 (ih keyed_nil hsub)) k
      · next old hold =>
        obtain ⟨sub, hsub, rfl⟩ := Option.map_eq_some_iff.1 hs
        exact h.put (Item.keyed_table.2 (ih (Item.keyed_table.1 (h.of_lookup hold)) hsub)) k
      · next rows hold =>
        split at hs
        · next last before hrows =>
          obtain ⟨last', hlast, rfl⟩ := Option.map_eq_some_iff.1 hs
          exact h.put_last hold hrows fun hl => ih hl hlast
        · cases hs
      · cases hs

theorem Keyed.openTable {k : Text} (h : es.Keyed) (hs : Entries.openTable k es = some es') :
    es'.Keyed := by
  unfold Entries.openTable at hs
  split at hs
  · cases hs
    exact h.put (Item.keyed_table.2 keyed_nil) k
  · next sub hold =>
    cases hs
    exact h.put (Item.keyed_table.2 (Item.keyed_table.1 (h.of_lookup hold))) k
  · cases hs

theorem Keyed.openRow {k : Text} (h : es.Keyed) (hs : Entries.openRow k es = some es') :
    es'.Keyed := by
  unfold Entries.openRow at hs
  split at hs
  · cases hs
    refine h.put (Item.keyed_tables.2 fun row hrow => ?_) k
    rw [List.mem_singleton.1 hrow]
    exact keyed_nil
  · next rows hold =>
    cases hs
    refine h.put (Item.keyed_tables.2 fun row hrow => ?_) k
    rcases List.mem_append.1 hrow with hrow | hrow
    · exact Item.keyed_tables.1 (h.of_lookup hold) row hrow
    · rw [List.mem_singleton.1 hrow]
      exact keyed_nil
  · cases hs

end Entries

/-! ## Items as values -/

theorem keys_toValues (es : Entries) : (toValues es).map Prod.fst = es.map Prod.fst := by
  induction es with
  | nil => rfl
  | cons e rest ih => rw [toValues, List.map_cons, List.map_cons, ih]

theorem Item.Keyed.toValue {i : Item} (h : i.Keyed) : i.toValue.Keyed := by
  cases h with
  | value h => exact h
  | table hkeys hitems =>
    rw [Item.toValue, Value.Keyed, keys_toValues]
    exact hkeys
  | tables hkeys hitems => trivial

theorem lookup_toValues (es : Entries) (k : Text) :
    (toValues es).lookup k = (es.lookup k).map Item.toValue := by
  induction es with
  | nil => rfl
  | cons e rest ih =>
    rw [toValues, List.lookup_cons, List.lookup_cons, ih]
    cases k == e.1 <;> rfl

/-! ## Documents -/

/-- No value without quotes is a table. -/
theorem keyed_of_scalarValue? {t : Text} {v : Value} (h : scalarValue? t = some v) : v.Keyed := by
  unfold scalarValue? at h
  repeat' split at h
  all_goals cases h
  all_goals trivial

/-- Values that are read, and tables that members are read into. -/
theorem keyed_of_value? (fuel : Nat) :
    (∀ {t r v}, value? fuel t = some (v, r) → v.Keyed) ∧
      ∀ {es es' : Entries} {t r}, es.Keyed → members? fuel es t = some (es', r) → es'.Keyed := by
  induction fuel with
  | zero =>
    refine ⟨fun h => ?_, fun _ h => ?_⟩
    · rw [value?] at h
      cases h
    · rw [members?] at h
      cases h
  | succ fuel ih =>
    obtain ⟨hvalue, hmembers⟩ := ih
    refine ⟨fun h => ?_, fun hes h => ?_⟩
    · unfold value? at h
      split at h
      -- Strings in four forms and arrays are no tables.
      iterate 5
        · obtain ⟨x, -, hx⟩ := Option.map_eq_some_iff.1 h
          cases hx
          trivial
      · obtain ⟨⟨es, r⟩, hes, hx⟩ := Option.map_eq_some_iff.1 h
        cases hx
        rw [Value.Keyed, keys_toValues]
        exact (hmembers Entries.keyed_nil hes).keys
      · obtain ⟨v, hv, hx⟩ := Option.map_eq_some_iff.1 h
        cases hx
        exact keyed_of_scalarValue? hv
    · unfold members? at h
      simp only [Option.bind_eq_bind, Option.bind_eq_some_iff] at h
      obtain ⟨t', -, h⟩ := h
      split at h
      · cases h
        exact hes
      · obtain ⟨⟨k, r⟩, -, h⟩ := Option.bind_eq_some_iff.1 h
        split at h
        · simp only [Option.bind_eq_some_iff] at h
          obtain ⟨⟨v, r⟩, hv, es', hset, r, -, h⟩ := h
          have hes' := hes.set? (hvalue hv) hset
          split at h
          · cases h
            exact hes'
          · exact hmembers hes' h
          · cases h
        · cases h

namespace Progress

variable {p p' : Progress} {fuel : Nat} {t r : Text}

theorem keyed_header? {openLast : Text → Entries → Option Entries} {close : Text}
    (hopen : ∀ {k es es'}, Entries.Keyed es → openLast k es = some es' → Entries.Keyed es')
    (h : p.entries.Keyed) (hs : p.header? fuel openLast close t = some (p', r)) :
    p'.entries.Keyed := by
  simp only [header?, Option.bind_eq_bind, Option.bind_eq_some_iff] at hs
  obtain ⟨⟨path, _⟩, -, _, -, _, -, entries, hentries, hs⟩ := hs
  cases hs
  exact h.enter? hopen hentries

theorem keyed_pair? (h : p.entries.Keyed) (hs : p.pair? fuel t = some (p', r)) :
    p'.entries.Keyed := by
  simp only [pair?, Option.bind_eq_bind, Option.bind_eq_some_iff] at hs
  obtain ⟨⟨k, _⟩, -, _, -, ⟨v, _⟩, hv, _, -, entries, hentries, hs⟩ := hs
  cases hs
  exact h.change? (fun hes hset => hes.set? ((keyed_of_value? fuel).1 hv) hset) hentries

/-- A line changes the tables in one of four ways. -/
theorem keyed_line? (h : p.entries.Keyed) (hs : p.line? fuel t = some (p', r)) :
    p'.entries.Keyed := by
  unfold line? at hs
  split at hs
  · exact keyed_header? Entries.Keyed.openRow h hs
  · exact keyed_header? Entries.Keyed.openTable h hs
  · split at hs
    · cases hs
      exact h
    · exact keyed_pair? h hs

theorem keyed_lines? (h : p.entries.Keyed) (hs : lines? fuel p t = some p') :
    p'.entries.Keyed := by
  induction fuel generalizing p t with
  | zero =>
    cases t with
    | nil =>
      cases hs
      exact h
    | cons c t => cases hs
  | succ fuel ih =>
    cases t with
    | nil =>
      cases hs
      exact h
    | cons c t =>
      simp only [lines?, Option.bind_eq_bind, Option.bind_eq_some_iff] at hs
      obtain ⟨⟨next, r⟩, hline, hs⟩ := hs
      exact ih (keyed_line? h hline) hs

end Progress

/-- The values in the root table of a document have different keys. -/
theorem keyed_of_parse? {t : Text} {es : List (Text × Value)} (h : parse? t = some es) {k : Text}
    {v : Value} (hk : es.lookup k = some v) : v.Keyed := by
  obtain ⟨p, hp, rfl⟩ := Option.map_eq_some_iff.1 h
  rw [lookup_toValues] at hk
  obtain ⟨i, hi, rfl⟩ := Option.map_eq_some_iff.1 hk
  exact ((Progress.keyed_lines? Entries.keyed_nil hp).of_lookup hi).toValue

end SplitDns.Toml

namespace SplitDns.Settings

/-- Each name of a group stands for one group. -/
def Keyed (s : Settings) : Prop :=
  (s.groups.map Prod.fst).Nodup

namespace Read

open Toml

theorem insertNamed_perm {α : Type} (name : Text) (a : α) (l : List (Text × α)) :
    (insertNamed name a l).Perm ((name, a) :: l) := by
  induction l with
  | nil => exact .refl _
  | cons p rest ih =>
    obtain ⟨n, b⟩ := p
    unfold insertNamed
    split
    · exact .refl _
    · exact (ih.cons _).trans (.swap ..)

theorem keys_of_mapM {α β : Type} {f : α → Option β} {es : List (Text × α)}
    {ps : List (Text × β)} (h : es.mapM (fun (k, v) => (f v).map (k, ·)) = some ps) :
    ps.map Prod.fst = es.map Prod.fst := by
  induction es generalizing ps with
  | nil =>
    cases h
    rfl
  | cons e rest ih =>
    obtain ⟨k, v⟩ := e
    simp only [List.mapM_cons, Option.bind_eq_bind, Option.bind_eq_some_iff] at h
    obtain ⟨p, hp, ps', hps', h⟩ := h
    cases h
    obtain ⟨a, -, rfl⟩ := Option.map_eq_some_iff.1 hp
    rw [List.map_cons, List.map_cons, ih hps']

/-- Tables with names as keys keep their keys, in another order. -/
theorem nodup_keys_of_named? {α : Type} {item? : Value → Option α} {v : Value}
    {l : List (Text × α)} (hv : v.Keyed) (h : named? item? v = some l) :
    (l.map Prod.fst).Nodup := by
  cases v with
  | table es =>
    simp only [named?, Option.bind_eq_bind, Option.bind_eq_some_iff] at h
    obtain ⟨pairs, hpairs, h⟩ := h
    cases h
    have hperm : (pairs.foldr (fun (k, a) r => insertNamed k a r) []).Perm pairs := by
      clear hpairs
      induction pairs with
      | nil => exact .refl _
      | cons p rest ih => exact (insertNamed_perm p.1 p.2 _).trans (ih.cons _)
    rw [(hperm.map Prod.fst).nodup_iff, keys_of_mapM hpairs]
    exact hv
  | _ => cases h

/-- The groups of settings are what is read under their key. -/
theorem groups_of_ofTable? {es : List (Text × Value)} {s : Settings} (h : ofTable? es = some s) :
    memberOr (.table es) 9 "groups" [] (named? group?) = some s.groups := by
  simp only [ofTable?, Option.bind_eq_bind, Option.bind_eq_some_iff] at h
  obtain ⟨_, -, _, -, _, -, _, -, _, -, _, -, _, -, _, -, _, -, groups, hgroups, h⟩ := h
  cases h
  exact hgroups

end Read

open Toml in
theorem keyed_of_parse {t : Text} {s : Settings} (h : parse t = .ok s) : s.Keyed := by
  unfold parse at h
  split at h
  · next s' hs' =>
    cases h
    obtain ⟨es, hes, hread⟩ := Option.bind_eq_some_iff.1 hs'
    have hgroups := Read.groups_of_ofTable? hread
    unfold Read.memberOr Read.member? at hgroups
    split at hgroups
    · have hnone := Option.some.inj hgroups
      rw [Keyed, normal, ← hnone]
      exact List.nodup_nil
    · next v hv => exact Read.nodup_keys_of_named? (keyed_of_parse? hes hv) hgroups
  · cases h

/-- Settings that were loaded have each group once, whatever the files and the command line say. -/
theorem keyed_of_load {files : Files} {named : Option Text} {overrides : Overrides}
    {s : Settings} (h : load files named overrides = .ok s) : s.Keyed := by
  unfold load at h
  cases hfile : file? files named with
  | none =>
    rw [hfile] at h
    cases h
    exact List.nodup_nil
  | some path =>
    rw [hfile, Option.elim_some, readFile] at h
    split at h
    · cases h
    · next t ht =>
      cases hs : parse t with
      | error e =>
        rw [hs] at h
        cases h
      | ok s' =>
        rw [hs] at h
        cases h
        change s'.Keyed
        exact keyed_of_parse hs

theorem keyed_of_loadValid {files : Files} {named : Option Text} {overrides : Overrides}
    {s : Settings} (h : loadValid files named overrides = .ok s) : s.Keyed ∧ s.fault? = none := by
  unfold loadValid at h
  cases hs : load files named overrides with
  | error e =>
    rw [hs] at h
    cases h
  | ok s' =>
    rw [hs] at h
    cases hvalid : s'.fault? with
    | some fault => simp [bind, Except.bind, hvalid] at h
    | none =>
      have hs' : s' = s := by simpa [bind, Except.bind, hvalid, pure, Except.pure] using h
      subst hs'
      exact ⟨keyed_of_load hs, hvalid⟩

end SplitDns.Settings
