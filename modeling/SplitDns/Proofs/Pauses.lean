import Mathlib.Algebra.Group.Nat.Defs
import Mathlib.Data.List.DropRight
import SplitDns.Service.Backoff

/-!
# Pauses of a listener

A listener tries to receive again and again.  Along any sequence of tries the counter of a backoff
is the number of failures since the last datagram (`Backoff.failures_after`), so the pause after a
failure depends on that number only: ten milliseconds, doubled by each further failure, up to a
second and for fifty failures (`Backoff.trace_closed_form`).
-/

namespace SplitDns

/-- How a try to receive ends. -/
inductive Receipt where
  | datagram
  | failure
  deriving DecidableEq, Repr

/-- The failures since the last datagram. -/
def streak (tries : List Receipt) : Nat :=
  (tries.rtakeWhile (· == .failure)).length

theorem streak_failure (tries : List Receipt) :
    streak (tries ++ [.failure]) = streak tries + 1 := by
  rw [streak, List.rtakeWhile_concat_pos _ _ _ rfl, List.length_append]
  rfl

theorem streak_datagram (tries : List Receipt) : streak (tries ++ [.datagram]) = 0 := by
  rw [streak, List.rtakeWhile_concat_neg _ _ _ (by decide)]
  rfl

theorem streak_le_length (tries : List Receipt) : streak tries ≤ tries.length :=
  (List.rtakeWhile_suffix _ _).length_le

/-- The streak grows with each failure. -/
theorem streak_mono {tries : List Receipt} {i j : Nat} (hij : i ≤ j)
    (h : ∀ m, i ≤ m → m < j → tries[m]? = some .failure) :
    streak (tries.take i) ≤ streak (tries.take j) := by
  induction j, hij using Nat.le_induction with
  | base => exact Nat.le_refl _
  | succ j hij ih =>
    have hj := h j hij (Nat.lt_succ_self j)
    rw [List.take_add_one, hj, Option.toList_some, streak_failure]
    exact Nat.le_succ_of_le (ih fun m him hm => h m him (Nat.lt_succ_of_lt hm))

/-- The pause in milliseconds after some failures in a row. -/
def pauseAfter? (k : Nat) : Option Nat :=
  if k ≤ 50 then some (min (10 * 2 ^ (k - 1)) 1000) else none

theorem pauseAfter?_le {k ms : Nat} (h : pauseAfter? k = some ms) : ms ≤ 1000 := by
  rw [pauseAfter?] at h
  split at h
  · cases h
    exact Nat.min_le_right _ _
  · cases h

theorem pauseAfter?_mono {k l ms ms' : Nat} (hkl : k ≤ l) (hk : pauseAfter? k = some ms)
    (hl : pauseAfter? l = some ms') : ms ≤ ms' := by
  rw [pauseAfter?] at hk hl
  split at hk <;> split at hl
  · cases hk
    cases hl
    have hpow : 2 ^ (k - 1) ≤ 2 ^ (l - 1) :=
      Nat.pow_le_pow_right (by decide) (Nat.sub_le_sub_right hkl 1)
    omega
  all_goals contradiction

theorem pauseAfter?_spent {k l : Nat} (hkl : k ≤ l) (h : pauseAfter? k = none) :
    pauseAfter? l = none := by
  rw [pauseAfter?] at h ⊢
  split at h
  · cases h
  · exact if_neg (by omega)

namespace Backoff

/-! ## One failure -/

theorem toNat_doublings (k : UInt32) : (doublings k).toNat = min (k - 1).toNat 16 :=
  UInt32.toNat_min _ _

theorem doublings_le (k : UInt32) : (doublings k).toNat ≤ 16 := by
  rw [toNat_doublings]
  exact Nat.min_le_right _ _

theorem pow_doublings_le (k : UInt32) : 2 ^ (doublings k).toNat ≤ 2 ^ 16 :=
  Nat.pow_le_pow_right (by decide) (doublings_le k)

/-- The shift loses no bit. -/
theorem toNat_factor (k : UInt32) : (factor k).toNat = 2 ^ (doublings k).toNat := by
  have hle := doublings_le k
  have hpow := pow_doublings_le k
  have hshift : (doublings k).toNat % 32 = (doublings k).toNat := Nat.mod_eq_of_lt (by omega)
  rw [factor, UInt32.toNat_shiftLeft, hshift, UInt32.toNat_one, Nat.one_shiftLeft]
  exact Nat.mod_eq_of_lt (by omega)

/-- The first pause taken as often as the factor says is a time, so nothing is cut off. -/
theorem times_factor (k : UInt32) : times shortest (factor k) = shortest * (factor k).toNat := by
  have hfits : shortest * (factor k).toNat ≤ longestTime :=
    calc shortest * (factor k).toNat = shortest * 2 ^ (doublings k).toNat := by rw [toNat_factor]
      _ ≤ shortest * 2 ^ 16 := Nat.mul_le_mul_left _ (pow_doublings_le k)
      _ ≤ longestTime := by decide
  exact Nat.min_eq_left hfits

/-- Doublings that are left out would not change a pause, as the longest one is reached before. -/
theorem min_times_factor (k : UInt32) :
    min (times shortest (factor k)) longest = min (10 * 2 ^ (k - 1).toNat) 1000 := by
  rw [times_factor, toNat_factor, toNat_doublings]
  rcases Nat.le_total (k - 1).toNat 16 with h | h
  · rw [Nat.min_eq_left h]
    rfl
  · have hpow : 2 ^ 16 ≤ 2 ^ (k - 1).toNat := Nat.pow_le_pow_right (by decide) h
    have hcap : min (10 * 2 ^ (k - 1).toNat) 1000 = 1000 := Nat.min_eq_right (by omega)
    rw [Nat.min_eq_right h, hcap]
    rfl

theorem failures_fail (b : Backoff) : b.fail.2.failures = b.failures + 1 := by
  rw [fail]
  split <;> rfl

theorem toNat_failures_fail {b : Backoff} (h : b.failures.toNat + 1 < 2 ^ 32) :
    b.fail.2.failures.toNat = b.failures.toNat + 1 := by
  rw [failures_fail, UInt32.toNat_add, UInt32.toNat_one, Nat.mod_eq_of_lt h]

/-- A failure gives the pause of its number in the row. -/
theorem fail_fst {b : Backoff} (h : b.failures.toNat + 1 < 2 ^ 32) :
    b.fail.1 = pauseAfter? (b.failures.toNat + 1) := by
  have hnext : (b.failures + 1).toNat = b.failures.toNat + 1 := by
    rw [← failures_fail, toNat_failures_fail h]
  have hspent : budget < b.failures + 1 ↔ 50 < b.failures.toNat + 1 := by
    rw [UInt32.lt_iff_toNat_lt, hnext]
    rfl
  simp only [fail, pauseAfter?, hspent]
  split
  next hlt => exact (if_neg (Nat.not_le_of_gt hlt)).symm
  next hle =>
    rw [if_pos (Nat.le_of_not_lt hle), min_times_factor, UInt32.add_sub_cancel, Nat.add_sub_cancel]

/-! ## Tries in a row -/

/-- One try: a datagram starts the count again. -/
def note (b : Backoff) : Receipt → Option Nat × Backoff
  | .datagram => (none, b.reset)
  | .failure => b.fail

def after (b : Backoff) (tries : List Receipt) : Backoff :=
  tries.foldl (fun b r => (b.note r).2) b

/-- What each of some tries gives: a pause or nothing. -/
def trace (b : Backoff) : List Receipt → List (Option Nat)
  | [] => []
  | r :: tries => (b.note r).1 :: trace (b.note r).2 tries

theorem trace_getElem? (b : Backoff) (tries : List Receipt) (i : Nat) :
    (b.trace tries)[i]? = tries[i]?.map fun r => ((b.after (tries.take i)).note r).1 := by
  induction tries generalizing b i with
  | nil => rfl
  | cons r tries ih =>
    cases i with
    | zero => rfl
    | succ i => exact ih (b.note r).2 i

theorem after_concat (b : Backoff) (tries : List Receipt) (r : Receipt) :
    b.after (tries ++ [r]) = ((b.after tries).note r).2 := by
  rw [after, List.foldl_append]
  rfl

/-- The counter is the streak, and adding to it does not overflow. -/
theorem failures_after {tries : List Receipt} (h : tries.length < 2 ^ 32) :
    (fresh.after tries).failures.toNat = streak tries := by
  -- The last try decides how the streak goes on, so the induction is on the end of the list.
  induction tries using List.reverseRecOn with
  | nil => rfl
  | append_singleton tries r ih =>
    rw [List.length_append, List.length_singleton] at h
    rw [after_concat]
    cases r with
    | datagram =>
      rw [streak_datagram]
      rfl
    | failure =>
      have ih := ih (by omega)
      have hle := streak_le_length tries
      rw [streak_failure, ← ih]
      exact toNat_failures_fail (by omega)

/-- The pause after a failure is that of the streak which the failure ends. -/
theorem trace_of_failure {tries : List Receipt} (hlen : tries.length < 2 ^ 32) {i : Nat}
    (hi : tries[i]? = some .failure) :
    (fresh.trace tries)[i]? = some (pauseAfter? (streak (tries.take (i + 1)))) := by
  have hlt : i < tries.length := (List.getElem?_eq_some_iff.1 hi).1
  have htake : (tries.take i).length = i := List.length_take_of_le (Nat.le_of_lt hlt)
  have hcount : (fresh.after (tries.take i)).failures.toNat = streak (tries.take i) :=
    failures_after (by omega)
  have hle := streak_le_length (tries.take i)
  rw [trace_getElem?, hi, List.take_add_one, hi, Option.toList_some, streak_failure, ← hcount]
  exact congrArg some (fail_fst (by omega))

/-- All tries from one to another fail. -/
def FailsThrough (tries : List Receipt) (i j : Nat) : Prop :=
  i ≤ j ∧ ∀ m, i ≤ m → m ≤ j → tries[m]? = some .failure

/-- Each failure gives the pause of its number since the last datagram; pauses of one streak do not
get shorter, none is longer than a second, and once the budget is spent there is none up to the next
datagram.  Counting, shifting and multiplying lose nothing. -/
theorem trace_closed_form (tries : List Receipt) (hlen : tries.length < 2 ^ 32) :
    (∀ i, tries[i]? = some .failure →
      (fresh.after (tries.take i)).failures.toNat + 1 = streak (tries.take (i + 1)) ∧
      (fresh.trace tries)[i]? = some (pauseAfter? (streak (tries.take (i + 1)))) ∧
      ∀ ms, (fresh.trace tries)[i]? = some (some ms) → ms ≤ 1000) ∧
    (∀ i j, FailsThrough tries i j →
      (∀ ms ms', (fresh.trace tries)[i]? = some (some ms) →
        (fresh.trace tries)[j]? = some (some ms') → ms ≤ ms') ∧
      ((fresh.trace tries)[i]? = some none → (fresh.trace tries)[j]? = some none)) ∧
    ∀ k : UInt32, (doublings k).toNat < 32 ∧ (factor k).toNat = 2 ^ (doublings k).toNat ∧
      times shortest (factor k) = shortest * (factor k).toNat := by
  refine ⟨fun i hi => ?_, fun i j ⟨hij, hf⟩ => ?_, fun k => ?_⟩
  · have hpause := trace_of_failure hlen hi
    refine ⟨?_, hpause, fun ms hms => ?_⟩
    · rw [List.take_add_one, hi, Option.toList_some, streak_failure,
        failures_after (Nat.lt_of_le_of_lt (List.length_take_le' _ _) hlen)]
    · rw [hpause] at hms
      exact pauseAfter?_le (Option.some.inj hms)
  · have hgrow : streak (tries.take (i + 1)) ≤ streak (tries.take (j + 1)) :=
      streak_mono (Nat.succ_le_succ hij) fun m him hmj => hf m (by omega) (by omega)
    rw [trace_of_failure hlen (hf i (Nat.le_refl i) hij),
      trace_of_failure hlen (hf j hij (Nat.le_refl j))]
    refine ⟨fun ms ms' hi hj => ?_, fun hi => ?_⟩
    · exact pauseAfter?_mono hgrow (Option.some.inj hi) (Option.some.inj hj)
    · exact congrArg some (pauseAfter?_spent hgrow (Option.some.inj hi))
  · exact ⟨Nat.lt_of_le_of_lt (doublings_le k) (by decide), toNat_factor k, times_factor k⟩

/-- Fifty failures in a row reach the longest pause, one more spends the budget, and a datagram
starts again with the shortest. -/
theorem trace_closed_form_budget :
    let tries := List.replicate 51 Receipt.failure ++ [.datagram, .failure]
    tries.length < 2 ^ 32 ∧ (fresh.trace tries)[49]? = some (some 1000) ∧
      (fresh.trace tries)[50]? = some none ∧ (fresh.trace tries)[52]? = some (some 10) := by
  intro tries
  have hlen : tries.length < 2 ^ 32 := by decide
  have hpause := (trace_closed_form tries hlen).1
  exact ⟨hlen, (hpause 49 (by decide)).2.1, (hpause 50 (by decide)).2.1,
    (hpause 52 (by decide)).2.1⟩

end Backoff

end SplitDns
