import Mathlib.Logic.Function.Basic
import SplitDns.AddressSet.Memory

/-!
# An address set that tasks share

Tasks take turns in using one set, a step each time.  Asking for an address takes two of them: the
task reads the set, and when it finds an expired entry it removes it later, by what the clock said
at the first step.  Expired entries stay until then, so the set holds more than the addresses that
are alive; the invariant (`MemorySet.Recalls`) is that each entry is what the last addition of its
address left, and that no entry is missing which is alive.  So the history says what tasks see, and
only additions change it (`SharedSet.live_exactly_as_added`).
-/

namespace SplitDns

/-- A step of a task, with what the task learns from it. -/
inductive SetDeed where
  | added (ip : Ipv4) (ttl : UInt32)
  | asked (ip : Ipv4) (found : Bool)
  | removed (ip : Ipv4)
  | counted (n : Nat)
  | purged
  deriving DecidableEq, Repr

/-- The steps so far and when they were taken, latest first. -/
abbrev SetHistory := List (Nat × SetDeed)

namespace SetHistory

/-- When an address was added last, and for how long. -/
def lastAdded? (ip : Ipv4) : SetHistory → Option (Nat × UInt32)
  | [] => none
  | (start, .added ip' ttl) :: h => if ip' = ip then some (start, ttl) else lastAdded? ip h
  | (_, _) :: h => lastAdded? ip h

/-- What was added at some time is alive at another: it has no lifetime, neither of its own nor by
default, or one that is not over. -/
inductive Lasts (defaultTtl : Option Nat) (start : Nat) (ttl : UInt32) (now : Nat) : Prop
  | own (h : ttl ≠ 0) (hnow : now < start + ttl.toNat)
  | byDefault {life : Nat} (h : ttl = 0) (hd : defaultTtl = some life) (hnow : now < start + life)
  | forever (h : ttl = 0) (hd : defaultTtl = none)

/-- An address is alive at a time by its last addition. -/
def Alive (defaultTtl : Option Nat) (h : SetHistory) (now : Nat) (ip : Ipv4) : Prop :=
  ∃ start ttl, h.lastAdded? ip = some (start, ttl) ∧ Lasts defaultTtl start ttl now

end SetHistory

namespace MemorySet

/-- What is left to do for a task that asked for an address: to remove an expired entry, with the
time at which the task asked. -/
def leftover (s : MemorySet) (now : Nat) (ip : Ipv4) : Option (Ipv4 × Nat) :=
  if (s.members.lookup ip).any fun expires => !isLive now expires then some (ip, now) else none

end MemorySet

/-- A set, the clock, and the removals that tasks have not made yet, by the number of the task. -/
structure SharedSet where
  set : MemorySet
  now : Nat
  removals : Nat → Option (Ipv4 × Nat)

namespace SharedSet

/-- A step of a task.  A task that has a removal to make does nothing else before. -/
inductive Step (s : SharedSet) (i : Nat) : SetDeed → SharedSet → Prop
  | add (ip : Ipv4) (ttl : UInt32) (h : s.removals i = none) :
      Step s i (.added ip ttl) { s with set := s.set.add s.now ip ttl }
  | ask (ip : Ipv4) (h : s.removals i = none) :
      Step s i (.asked ip (s.set.has s.now ip))
        { s with removals := Function.update s.removals i (s.set.leftover s.now ip) }
  | remove {ip : Ipv4} {asked : Nat} (h : s.removals i = some (ip, asked)) :
      Step s i (.removed ip)
        { s with
          set := s.set.drop asked ip
          removals := Function.update s.removals i none }
  | count (h : s.removals i = none) : Step s i (.counted (s.set.size s.now)) s
  | purge (h : s.removals i = none) :
      Step s i .purged { s with set := s.set.purge s.now }

/-- What is reached from an empty set by steps of any tasks in any order, while time passes. -/
inductive Reached (name : Text) (defaultTtl : Option Nat) : SetHistory → SharedSet → Prop
  | start (now : Nat) : Reached name defaultTtl [] ⟨.empty name defaultTtl, now, fun _ => none⟩
  | wait {h : SetHistory} {s : SharedSet} (hr : Reached name defaultTtl h s) (seconds : Nat) :
      Reached name defaultTtl h { s with now := s.now + seconds }
  | step {h : SetHistory} {s s' : SharedSet} {i : Nat} {d : SetDeed}
      (hr : Reached name defaultTtl h s) (hs : s.Step i d s') :
      Reached name defaultTtl ((s.now, d) :: h) s'

end SharedSet

/-! ## Entries by their keys -/

section Entries

variable {α β : Type} [BEq α] [LawfulBEq α] {l : List (α × β)}

theorem lookup_eq_some_iff_mem (hl : (l.map (·.1)).Nodup) {k : α} {v : β} :
    l.lookup k = some v ↔ (k, v) ∈ l := by
  induction l with
  | nil => simp
  | cons e l ih =>
    obtain ⟨k', v'⟩ := e
    obtain ⟨hk', hl⟩ := List.nodup_cons.1 hl
    by_cases hk : k = k'
    · subst hk
      have hnot : (k, v) ∉ l := fun hmem => hk' (List.mem_map.2 ⟨(k, v), hmem, rfl⟩)
      simp [hnot, eq_comm]
    · have hne : (k == k') = false := beq_eq_false_iff_ne.2 hk
      rw [List.lookup_cons, hne, ih hl]
      simp [hk]

/-- A filter leaves the entries of some keys as they are. -/
theorem lookup_filter (hl : (l.map (·.1)).Nodup) (p : α × β → Bool) (k : α) :
    (l.filter p).lookup k = (l.lookup k).filter fun v => p (k, v) := by
  have hl' : ((l.filter p).map (·.1)).Nodup := hl.sublist (List.filter_sublist.map _)
  ext v
  rw [lookup_eq_some_iff_mem hl', List.mem_filter, Option.filter_eq_some_iff,
    lookup_eq_some_iff_mem hl]

theorem lookup_filter_of_forall (hl : (l.map (·.1)).Nodup) {p : α × β → Bool} {k : α}
    (hp : ∀ v, p (k, v) = true) : (l.filter p).lookup k = l.lookup k := by
  rw [lookup_filter hl]
  cases l.lookup k with
  | none => rfl
  | some v => exact Option.filter_some_pos (hp v)

end Entries

open SetHistory

theorem SetHistory.lastAdded?_cons {h : SetHistory} {now : Nat} {d : SetDeed} {ip : Ipv4}
    (hd : ∀ ip ttl, d ≠ .added ip ttl) : lastAdded? ip ((now, d) :: h) = lastAdded? ip h := by
  cases d with
  | added ip ttl => exact absurd rfl (hd ip ttl)
  | asked ip found => rfl
  | removed ip => rfl
  | counted n => rfl
  | purged => rfl

theorem SetHistory.alive_cons {defaultTtl : Option Nat} {h : SetHistory} {start now : Nat}
    {d : SetDeed} {ip : Ipv4} (hd : ∀ ip ttl, d ≠ .added ip ttl) :
    Alive defaultTtl ((start, d) :: h) now ip ↔ Alive defaultTtl h now ip := by
  rw [Alive, Alive, lastAdded?_cons hd]

namespace MemorySet

variable {s : MemorySet} {h : SetHistory} {now now' : Nat} {ip : Ipv4} {d : SetDeed}

theorem isLive_mono {expires : Option Nat} (hle : now ≤ now') (he : isLive now' expires = true) :
    isLive now expires = true := by
  cases expires with
  | none => rfl
  | some t =>
    simp only [isLive, Option.all_some, decide_eq_true_eq] at he ⊢
    exact Nat.lt_of_le_of_lt hle he

/-- The expiry that an addition stores says how long it lasts. -/
theorem isLive_expiry {start : Nat} {ttl : UInt32} :
    isLive now (s.expiry start ttl) = true ↔ Lasts s.defaultTtl start ttl now := by
  constructor
  · intro he
    by_cases h : ttl = 0
    · cases hd : s.defaultTtl with
      | none => exact .forever h rfl
      | some life => exact .byDefault h rfl (by simpa [expiry, h, hd, isLive] using he)
    · exact .own h (by simpa [expiry, h, isLive] using he)
  · rintro (⟨h, hnow⟩ | ⟨h, hd, hnow⟩ | ⟨h, hd⟩)
    · simpa [expiry, h, isLive] using hnow
    · simpa [expiry, h, hd, isLive] using hnow
    · simp [expiry, h, hd, isLive]

theorem has_eq_true_iff :
    s.has now ip = true ↔ ∃ expires, s.members.lookup ip = some expires ∧ isLive now expires := by
  rw [has, Option.any_eq_true]

/-- Asking and then removing, with nothing in between. -/
theorem contains_eq (s : MemorySet) (now : Nat) (ip : Ipv4) :
    s.contains now ip =
      (s.has now ip, if (s.leftover now ip).isSome then s.drop now ip else s) := by
  rw [contains, has, leftover]
  cases hl : s.members.lookup ip with
  | none =>
    have hdrop : s.drop now ip = s := by
      have hall : s.members.filter (fun e => e.1 != ip || isLive now e.2) = s.members :=
        List.filter_eq_self.2 fun e he => by
          have hne : ip ≠ e.1 := by simpa using List.lookup_eq_none_iff.1 hl e he
          simp [Ne.symm hne]
      exact congrArg (fun members => { s with members }) hall
    simp [hdrop]
  | some expires => cases hlive : isLive now expires <;> simp [hlive]

/-- What the entries of a set at a time have to do with its history. -/
structure Recalls (h : SetHistory) (now : Nat) (s : MemorySet) : Prop where
  nodup : (s.members.map (·.1)).Nodup
  /-- An entry is what the last addition of its address left. -/
  stored : ∀ ip expires, s.members.lookup ip = some expires →
    ∃ start ttl, h.lastAdded? ip = some (start, ttl) ∧ expires = s.expiry start ttl
  /-- What is alive is not missing. -/
  kept : ∀ ip start ttl, h.lastAdded? ip = some (start, ttl) → isLive now (s.expiry start ttl) →
    s.members.lookup ip = some (s.expiry start ttl)

namespace Recalls

theorem start (name : Text) (defaultTtl : Option Nat) (now : Nat) :
    Recalls [] now (empty name defaultTtl) where
  nodup := List.nodup_nil
  stored := fun ip expires he => by cases he
  kept := fun ip start ttl hl => by cases hl

theorem later (hs : Recalls h now s) (hle : now ≤ now') : Recalls h now' s :=
  { hs with kept := fun ip start ttl hl he => hs.kept ip start ttl hl (isLive_mono hle he) }

theorem add (hs : Recalls h now s) (ip : Ipv4) (ttl : UInt32) :
    Recalls ((now, .added ip ttl) :: h) now (s.add now ip ttl) := by
  have hself : (s.add now ip ttl).members.lookup ip = some (s.expiry now ttl) :=
    List.lookup_cons_self
  have hother : ∀ ip' ≠ ip, (s.add now ip ttl).members.lookup ip' = s.members.lookup ip' := by
    intro ip' hne
    have hkey : (ip' == ip) = false := beq_eq_false_iff_ne.2 hne
    rw [MemorySet.add, List.lookup_cons, hkey]
    exact lookup_filter_of_forall hs.nodup fun _ => bne_iff_ne.2 hne
  refine ⟨?_, fun ip' expires he => ?_, fun ip' start ttl' hl he => ?_⟩
  · rw [MemorySet.add, List.map_cons, List.nodup_cons]
    refine ⟨fun hmem => ?_, hs.nodup.sublist (List.filter_sublist.map _)⟩
    obtain ⟨e, he, rfl⟩ := List.mem_map.1 hmem
    simpa using (List.mem_filter.1 he).2
  · by_cases hip : ip' = ip
    · subst hip
      rw [hself] at he
      cases he
      exact ⟨now, ttl, if_pos rfl, rfl⟩
    · rw [hother ip' hip] at he
      rw [lastAdded?, if_neg (Ne.symm hip)]
      exact hs.stored ip' expires he
  · by_cases hip : ip' = ip
    · subst hip
      rw [lastAdded?, if_pos rfl] at hl
      cases hl
      exact hself
    · rw [lastAdded?, if_neg (Ne.symm hip)] at hl
      rw [hother ip' hip]
      exact hs.kept ip' start ttl' hl he

/-- Entries that are not alive may go. -/
theorem filter (hs : Recalls h now s) {p : Ipv4 × Option Nat → Bool}
    (hp : ∀ ip expires, isLive now expires → p (ip, expires)) :
    Recalls h now { s with members := s.members.filter p } where
  nodup := hs.nodup.sublist (List.filter_sublist.map _)
  stored := fun ip expires he => by
    rw [lookup_filter hs.nodup, Option.filter_eq_some_iff] at he
    exact hs.stored ip expires he.1
  kept := fun ip start ttl hl he => by
    rw [lookup_filter hs.nodup, hs.kept ip start ttl hl he]
    exact Option.filter_some_pos (hp ip _ he)

/-- An entry that is alive now, added anew or not, had not expired when a task asked before. -/
theorem drop (hs : Recalls h now s) {asked : Nat} (hle : asked ≤ now) (ip : Ipv4) :
    Recalls h now (s.drop asked ip) :=
  hs.filter fun ip' expires he => by simp [isLive_mono hle he]

theorem purge (hs : Recalls h now s) : Recalls h now (s.purge now) :=
  hs.filter fun _ _ he => he

/-- A step that adds nothing leaves the last additions as they are. -/
theorem note (hs : Recalls h now s) {start : Nat} (hd : ∀ ip ttl, d ≠ .added ip ttl) :
    Recalls ((start, d) :: h) now s where
  nodup := hs.nodup
  stored := fun ip expires he => by
    rw [lastAdded?_cons hd]
    exact hs.stored ip expires he
  kept := fun ip start ttl hl he => by
    rw [lastAdded?_cons hd] at hl
    exact hs.kept ip start ttl hl he

/-- A set has the addresses that are alive by its history. -/
theorem has_iff (hs : Recalls h now s) (hle : now ≤ now') :
    s.has now' ip = true ↔ h.Alive s.defaultTtl now' ip := by
  rw [has_eq_true_iff]
  constructor
  · rintro ⟨expires, he, hlive⟩
    obtain ⟨start, ttl, hl, rfl⟩ := hs.stored ip expires he
    exact ⟨start, ttl, hl, isLive_expiry.1 hlive⟩
  · rintro ⟨start, ttl, hl, hlasts⟩
    have hlive := isLive_expiry.2 hlasts
    exact ⟨_, (hs.later hle).kept ip start ttl hl hlive, hlive⟩

/-- The size of a set is the number of addresses that are alive. -/
theorem exists_counted (hs : Recalls h now s) :
    ∃ ips : List Ipv4, ips.Nodup ∧ ips.length = s.size now ∧
      ∀ ip, ip ∈ ips ↔ h.Alive s.defaultTtl now ip := by
  refine ⟨(s.members.filter fun e => isLive now e.2).map (·.1),
    hs.nodup.sublist (List.filter_sublist.map _), List.length_map _, fun ip => ?_⟩
  rw [← hs.has_iff (Nat.le_refl now), has_eq_true_iff, List.mem_map]
  constructor
  · rintro ⟨⟨ip, expires⟩, he, rfl⟩
    obtain ⟨hmem, hlive⟩ := List.mem_filter.1 he
    exact ⟨expires, (lookup_eq_some_iff_mem hs.nodup).2 hmem, hlive⟩
  · rintro ⟨expires, he, hlive⟩
    exact ⟨(ip, expires), List.mem_filter.2 ⟨(lookup_eq_some_iff_mem hs.nodup).1 he, hlive⟩, rfl⟩

end Recalls

end MemorySet

namespace SharedSet

variable {name : Text} {defaultTtl : Option Nat} {h : SetHistory} {s s' : SharedSet} {i : Nat}
  {d : SetDeed}

/-- Removals go by times that are not in the future. -/
def Past (removals : Nat → Option (Ipv4 × Nat)) (now : Nat) : Prop :=
  ∀ i ip asked, removals i = some (ip, asked) → asked ≤ now

theorem Past.update {removals : Nat → Option (Ipv4 × Nat)} {now : Nat} (hp : Past removals now)
    (i : Nat) {removal : Option (Ipv4 × Nat)}
    (hr : ∀ ip asked, removal = some (ip, asked) → asked ≤ now) :
    Past (Function.update removals i removal) now := by
  intro j ip asked hj
  rw [Function.update_apply] at hj
  split at hj
  · exact hr ip asked hj
  · exact hp j ip asked hj

theorem eq_of_leftover {set : MemorySet} {now : Nat} {ip : Ipv4} {removal : Ipv4 × Nat}
    (hl : set.leftover now ip = some removal) : removal = (ip, now) := by
  rw [MemorySet.leftover] at hl
  split at hl
  · exact (Option.some.inj hl).symm
  · cases hl

/-- The invariant of all steps. -/
structure Inv (defaultTtl : Option Nat) (h : SetHistory) (s : SharedSet) : Prop where
  ttl : s.set.defaultTtl = defaultTtl
  recalls : s.set.Recalls h s.now
  past : Past s.removals s.now

theorem Inv.wait (hi : Inv defaultTtl h s) (seconds : Nat) :
    Inv defaultTtl h { s with now := s.now + seconds } where
  ttl := hi.ttl
  recalls := hi.recalls.later (Nat.le_add_right _ _)
  past := fun i ip asked hr => Nat.le_trans (hi.past i ip asked hr) (Nat.le_add_right _ _)

theorem Inv.step (hi : Inv defaultTtl h s) (hs : s.Step i d s') :
    Inv defaultTtl ((s.now, d) :: h) s' := by
  cases hs with
  | add ip ttl hidle => exact ⟨hi.ttl, hi.recalls.add ip ttl, hi.past⟩
  | ask ip hidle =>
    exact ⟨hi.ttl, hi.recalls.note (by simp),
      hi.past.update i fun ip' asked hl => Nat.le_of_eq (Prod.ext_iff.1 (eq_of_leftover hl)).2⟩
  | @remove ip asked hpending =>
    have hle := hi.past i ip asked hpending
    exact ⟨hi.ttl, (hi.recalls.drop hle ip).note (by simp), hi.past.update i (by simp)⟩
  | count hidle => exact ⟨hi.ttl, hi.recalls.note (by simp), hi.past⟩
  | purge hidle => exact ⟨hi.ttl, hi.recalls.purge.note (by simp), hi.past⟩

theorem Reached.inv (hr : Reached name defaultTtl h s) : Inv defaultTtl h s := by
  induction hr with
  | start now => exact ⟨rfl, .start name defaultTtl now, fun i ip asked hr => by cases hr⟩
  | wait hr seconds ih => exact ih.wait seconds
  | step hr hs ih => exact ih.step hs

theorem Step.now_eq (hs : s.Step i d s') : s'.now = s.now := by
  cases hs <;> rfl

/-- A task that is not interrupted looks an address up as one operation does. -/
theorem Reached.contains (hr : Reached name defaultTtl h s) (hidle : s.removals i = none)
    (ip : Ipv4) :
    ∃ h', Reached name defaultTtl h' { s with set := (s.set.contains s.now ip).2 } ∧
      (s.now, .asked ip (s.set.contains s.now ip).1) :: h <:+ h' := by
  have hasked := hr.step (.ask (i := i) ip hidle)
  rw [MemorySet.contains_eq]
  cases hl : s.set.leftover s.now ip with
  | none =>
    rw [hl, ← hidle, Function.update_eq_self] at hasked
    exact ⟨_, hasked, List.suffix_rfl⟩
  | some removal =>
    obtain rfl := eq_of_leftover hl
    rw [hl] at hasked
    have hremoved := hasked.step (.remove (i := i) (Function.update_self ..))
    rw [Function.update_idem, ← hidle, Function.update_eq_self] at hremoved
    exact ⟨_, hremoved, List.suffix_cons ..⟩

/-- A task that asks or counts finds the addresses that are alive at that time by their last
additions.  A step that adds nothing leaves all addresses as they are for that time and any later
one; so does a removal when another task has added the address anew since it was asked for. -/
theorem live_exactly_as_added (hr : Reached name defaultTtl h s) (hs : s.Step i d s') :
    (∀ ip found, d = .asked ip found →
      found = (s.set.contains s.now ip).1 ∧ (found = true ↔ h.Alive defaultTtl s.now ip)) ∧
    (∀ n, d = .counted n → ∃ ips : List Ipv4, ips.Nodup ∧ ips.length = n ∧
      ∀ ip, ip ∈ ips ↔ h.Alive defaultTtl s.now ip) ∧
    ((∀ ip ttl, d ≠ .added ip ttl) → ∀ ip now, s.now ≤ now →
      s'.set.has now ip = s.set.has now ip) ∧
    (∀ ip, d = .removed ip → h.Alive defaultTtl s.now ip →
      ∃ expires, s.set.members.lookup ip = some expires ∧
        s'.set.members.lookup ip = some expires) := by
  have hi := hr.inv
  have hi' := hi.step hs
  refine ⟨?asked, ?counted, ?kept, ?refreshed⟩
  case asked =>
    rintro ip found rfl
    cases hs
    rw [MemorySet.contains_eq, ← hi.ttl]
    exact ⟨rfl, hi.recalls.has_iff (Nat.le_refl _)⟩
  case counted =>
    rintro n rfl
    cases hs
    rw [← hi.ttl]
    exact hi.recalls.exists_counted
  case kept =>
    -- Both sets agree with their histories, and the histories have the same additions.
    intro hd ip now hle
    have hle' : s'.now ≤ now := by rwa [hs.now_eq]
    rw [Bool.eq_iff_iff, hi.recalls.has_iff hle, hi'.recalls.has_iff hle', hi.ttl, hi'.ttl,
      alive_cons hd]
  case refreshed =>
    rintro ip rfl ⟨start, ttl, hl, hlasts⟩
    cases hs with
    | @remove ip asked hpending =>
      have hle := hi.past i ip asked hpending
      rw [← hi.ttl] at hlasts
      have hlive := MemorySet.isLive_expiry.2 hlasts
      exact ⟨_, hi.recalls.kept ip start ttl hl hlive,
        (hi.recalls.drop hle ip).kept ip start ttl hl hlive⟩

/-- One task finds that an address has expired; before it removes the address, another one adds it
anew.  The removal leaves it in the set. -/
theorem live_exactly_as_added_anew :
    ∃ (h : SetHistory) (s s' : SharedSet) (ip : Ipv4), Reached [] none h s ∧
      s.Step 1 (.removed ip) s' ∧ h = [(9, .added ip 5), (9, .asked ip false), (0, .added ip 5)] ∧
      s.set.has 9 ip = true ∧ s'.set.has 9 ip = true := by
  let ip : Ipv4 := ⟨10, 0, 0, 1⟩
  let pending : Nat → Option (Ipv4 × Nat) := Function.update (fun _ => none) 1 (some (ip, 9))
  have h₁ : Reached [] none [(0, .added ip 5)] ⟨⟨[], none, [(ip, some 5)]⟩, 0, fun _ => none⟩ :=
    (Reached.start 0).step (i := 0) (.add ip 5 rfl)
  have h₂ : Reached [] none [(9, .asked ip false), (0, .added ip 5)]
      ⟨⟨[], none, [(ip, some 5)]⟩, 9, pending⟩ :=
    (h₁.wait 9).step (i := 1) (.ask ip rfl)
  have h₃ : Reached [] none [(9, .added ip 5), (9, .asked ip false), (0, .added ip 5)]
      ⟨⟨[], none, [(ip, some 14)]⟩, 9, pending⟩ :=
    h₂.step (i := 2) (.add ip 5 rfl)
  have hs : Step ⟨⟨[], none, [(ip, some 14)]⟩, 9, pending⟩ 1 (.removed ip) _ := .remove rfl
  have hkept := (live_exactly_as_added h₃ hs).2.2.1 (by simp) ip 9 (Nat.le_refl 9)
  exact ⟨_, _, _, ip, h₃, hs, rfl, rfl, hkept.trans rfl⟩

end SharedSet

end SplitDns
