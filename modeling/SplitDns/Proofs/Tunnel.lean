import SplitDns.Proofs.Exchanges
import SplitDns.Transport.Socks

/-!
# Opening a tunnel

What a proxy sends when it opens a tunnel ends where its fields say that it does (`Socks.Opens`),
and what the tunnel carries comes behind it.  Negotiation succeeds on just these bytes, reads them
and no more, and says the greeting and the request (`Socks.exact_negotiate`); the request is kept
back until the proxy has agreed to do without authentication (`Socks.negotiate_exact`).
-/

namespace SplitDns

theorem Exchange.bind_assoc {ε α β γ : Type} (x : Exchange ε α) (f : α → Exchange ε β)
    (g : β → Exchange ε γ) : bind (bind x f) g = bind x fun a => bind (f a) g := by
  funext s
  cases h : (x s).1 with
  | error e =>
    have hfirst : bind x f s = (.error e, (x s).2) := bind_of_error h
    rw [bind_of_error h, bind_of_error (congrArg Prod.fst hfirst), hfirst]
  | ok a =>
    rw [bind_of_ok h, bind, bind_of_ok h, bind]

theorem Exchange.bind_ite {ε α β : Type} (p : Prop) [Decidable p] (x y : Exchange ε α)
    (f : α → Exchange ε β) :
    bind (if p then x else y) f = if p then bind x f else bind y f :=
  apply_ite (bind · f) p x y

namespace Socks

open Exchange (Exact)

/-! ## Bound addresses -/

/-- The octets of an address of a type; those of a domain are counted by the first one. -/
inductive Bound : UInt8 → Bytes → Prop
  | ipv4 {address : Bytes} (h : address.length = 4) : Bound 1 address
  | domain {n : UInt8} {name : Bytes} (h : name.length = n.toNat) : Bound 3 (n :: name)
  | ipv6 {address : Bytes} (h : address.length = 16) : Bound 4 address

theorem bound_ipv4_iff {address : Bytes} : Bound 1 address ↔ address.length = 4 := by
  refine ⟨fun h => ?_, .ipv4⟩
  cases h with
  | ipv4 h => exact h

theorem bound_ipv6_iff {address : Bytes} : Bound 4 address ↔ address.length = 16 := by
  refine ⟨fun h => ?_, .ipv6⟩
  cases h with
  | ipv6 h => exact h

theorem bound_domain_iff {address : Bytes} :
    Bound 3 address ↔ ∃ (n : UInt8) (name : Bytes), address = n :: name ∧
      name.length = n.toNat := by
  constructor
  · intro h
    cases h with
    | @domain n name h => exact ⟨n, name, rfl, h⟩
  · rintro ⟨n, name, rfl, h⟩
    exact .domain h

theorem exact_skip (size : Nat) :
    Exact (Exchange.bind (Exchange.mapError Fault.readBound (Exchange.read (size + 2))) fun _ =>
        Exchange.pure ())
      (fun got _ => ∃ rest port, got = rest ++ port ∧ rest.length = size ∧ port.length = 2) [] := by
  refine (((Exchange.exact_read (size + 2)).mapError _).bind fun _ =>
    Exchange.exact_pure ()).congr fun got _ => ?_
  constructor
  · rintro ⟨bs, _, _, rfl, ⟨rfl, hlength⟩, rfl, -⟩
    refine ⟨bs.take size, bs.drop size, ?_, List.length_take_of_le (by omega), ?_⟩
    · rw [List.append_nil, List.take_append_drop]
    · rw [List.length_drop]
      omega
  · rintro ⟨rest, port, rfl, hrest, hport⟩
    refine ⟨rest ++ port, rest ++ port, [], (List.append_nil _).symm, ⟨rfl, ?_⟩, rfl, rfl⟩
    rw [List.length_append]
    omega

theorem exact_skipBound (type : UInt8) :
    Exact (skipBound type)
      (fun got _ => ∃ address port, got = address ++ port ∧ Bound type address ∧
        port.length = 2) [] := by
  by_cases h1 : type = 1
  · subst h1
    exact (exact_skip 4).congr fun got _ => by simp only [bound_ipv4_iff]
  by_cases h4 : type = 4
  · subst h4
    exact (exact_skip 16).congr fun got _ => by simp only [bound_ipv6_iff]
  by_cases h3 : type = 3
  · subst h3
    refine (((Exchange.exact_read 1).mapError Fault.readDomainLength).bind fun bs =>
      exact_skip (bs.headD 0).toNat).congr fun got _ => ⟨?_, ?_⟩
    · rintro ⟨bs, _, _, rfl, ⟨rfl, hlength⟩, name, port, rfl, hname, hport⟩
      obtain ⟨n, rfl⟩ := List.length_eq_one_iff.1 hlength
      exact ⟨n :: name, port, rfl, .domain hname, hport⟩
    · rintro ⟨_, port, rfl, hbound, hport⟩
      obtain ⟨n, name, rfl, hname⟩ := bound_domain_iff.1 hbound
      exact ⟨[n], [n], name ++ port, rfl, ⟨rfl, rfl⟩, name, port, rfl, hname, hport⟩
  · have hfail : skipBound type = Exchange.fail (.addressType type) := by
      unfold skipBound
      rw [if_neg h1, if_neg h4, if_neg h3]
      rfl
    rw [hfail]
    apply Exchange.exact_fail
    rintro got _ ⟨_, _, -, hbound, -⟩
    cases hbound with
    | ipv4 => exact h1 rfl
    | domain => exact h3 rfl
    | ipv6 => exact h4 rfl

/-! ## Replies -/

/-- A reply that a tunnel is open: version 5, code 0, a reserved octet, the type of an address, the
address and a port of two octets. -/
inductive Accepts : Bytes → Prop
  | reply (reserved type : UInt8) {address port : Bytes} (haddress : Bound type address)
      (hport : port.length = 2) : Accepts ([5, 0, reserved, type] ++ (address ++ port))

theorem exists_of_length_four {bs : Bytes} (h : bs.length = 4) :
    ∃ a b c d, bs = [a, b, c, d] := by
  obtain ⟨a, bs, rfl⟩ := List.exists_cons_of_length_eq_add_one h
  obtain ⟨b, bs, rfl⟩ := List.exists_cons_of_length_eq_add_one (Nat.succ.inj h)
  obtain ⟨c, bs, rfl⟩ := List.exists_cons_of_length_eq_add_one (Nat.succ.inj (Nat.succ.inj h))
  obtain ⟨d, rfl⟩ := List.length_eq_one_iff.1 (Nat.succ.inj (Nat.succ.inj (Nat.succ.inj h)))
  exact ⟨a, b, c, d, rfl⟩

theorem exact_readReply : Exact readReply (fun got _ => Accepts got) [] := by
  refine (((Exchange.exact_read 4).mapError Fault.readReply).bindOf
    (fun reply got _ => ∃ reserved type address port, reply = [5, 0, reserved, type] ∧
      got = address ++ port ∧ Bound type address ∧ port.length = 2) fun got reply h => ?_).congr
    fun got _ => ⟨?_, ?_⟩
  · obtain ⟨v, code, reserved, type, rfl⟩ := exists_of_length_four h.2
    show Exact (if v ≠ version then Exchange.fail (.replyVersion v)
      else if code ≠ 0 then Exchange.fail (.refused code) else skipBound type) _ []
    by_cases hv : v = version
    · by_cases hcode : code = 0
      · subst hv hcode
        refine (exact_skipBound type).congr fun got _ => ⟨?_, ?_⟩
        · rintro ⟨address, port, h⟩
          exact ⟨reserved, type, address, port, rfl, h⟩
        · rintro ⟨_, _, address, port, heq, h⟩
          cases heq
          exact ⟨address, port, h⟩
      · rw [if_neg (fun h => h hv), if_pos hcode]
        apply Exchange.exact_fail
        rintro got _ ⟨_, _, _, _, heq, -⟩
        cases heq
        exact hcode rfl
    · rw [if_pos hv]
      apply Exchange.exact_fail
      rintro got _ ⟨_, _, _, _, heq, -⟩
      cases heq
      exact hv rfl
  · rintro ⟨_, _, _, rfl, ⟨rfl, -⟩, reserved, type, address, port, rfl, rfl, haddress, hport⟩
    exact .reply reserved type haddress hport
  · intro h
    cases h with
    | @reply reserved type address port haddress hport =>
      exact ⟨_, _, _, rfl, ⟨rfl, rfl⟩, reserved, type, address, port, rfl, rfl, haddress, hport⟩

/-! ## Negotiation -/

/-- Whether the proxy does without authentication, by its choice of a method. -/
def agreed (choice : Bytes) : Exchange Fault Unit :=
  match choice with
  | [v, method] =>
    if v ≠ version then Exchange.fail (.version v)
    else if method = 255 then Exchange.fail .noMethod
    else if method ≠ 0 then Exchange.fail (.method method)
    else Exchange.pure ()
  | _ => Exchange.fail (.readMethod .endOfStream)

/-- The greeting and the answer to it. -/
def agree : Exchange Fault Unit :=
  Exchange.bind (Exchange.mapError .writeGreeting (Exchange.write greeting)) fun _ =>
    Exchange.bind (Exchange.mapError .readMethod (Exchange.read 2)) agreed

/-- Negotiation is an agreement, then the request and the reply to it. -/
theorem negotiate_eq (request : Bytes) :
    negotiate request = Exchange.bind agree fun _ =>
      Exchange.bind (Exchange.mapError .writeRequest (Exchange.write request)) fun _ =>
        readReply := by
  rw [agree, Exchange.bind_assoc]
  refine congrArg (Exchange.bind _) (funext fun _ => ?_)
  rw [Exchange.bind_assoc]
  refine congrArg (Exchange.bind _) (funext fun choice => ?_)
  obtain _ | ⟨v, _ | ⟨method, _ | ⟨octet, rest⟩⟩⟩ := choice
  · rfl
  · rfl
  · rw [agreed, Exchange.bind_ite, Exchange.bind_ite, Exchange.bind_ite]
    rfl
  · rfl

theorem exact_agreed (choice : Bytes) :
    Exact (agreed choice) (fun got _ => choice = [5, 0] ∧ got = []) [] := by
  by_cases h : choice = [5, 0]
  · subst h
    exact (Exchange.exact_pure ()).congr fun got _ => by simp
  · have hfail : ∃ fault, agreed choice = Exchange.fail fault := by
      unfold agreed
      split
      next v method =>
        by_cases hv : v = version
        · by_cases hmethod : method = 0
          · exact absurd (by rw [hv, hmethod]; rfl) h
          · by_cases hnone : method = 255
            · exact ⟨_, by rw [if_neg (fun h => h hv), if_pos hnone]⟩
            · exact ⟨_, by rw [if_neg (fun h => h hv), if_neg hnone, if_pos hmethod]⟩
        · exact ⟨_, if_pos hv⟩
      next => exact ⟨_, rfl⟩
    obtain ⟨fault, hfail⟩ := hfail
    rw [hfail]
    exact Exchange.exact_fail fault [] fun got _ hgot => h hgot.1

theorem exact_agree : Exact agree (fun got _ => got = [5, 0]) [5, 1, 0] := by
  refine (((Exchange.exact_write greeting).mapError _).bind fun _ =>
    ((Exchange.exact_read 2).mapError _).bind exact_agreed).congr fun got _ => ⟨?_, ?_⟩
  · rintro ⟨_, _, _, rfl, rfl, choice, _, _, rfl, ⟨rfl, -⟩, rfl, rfl⟩
    rfl
  · rintro rfl
    exact ⟨[], (), _, rfl, rfl, [5, 0], [5, 0], [], rfl, ⟨rfl, rfl⟩, rfl, rfl⟩

/-- All that a proxy sends when it opens a tunnel: the choice of no authentication, and a reply. -/
def Opens (opening : Bytes) : Prop :=
  ∃ reply, opening = [5, 0] ++ reply ∧ Accepts reply

theorem exact_negotiate (request : Bytes) :
    Exact (negotiate request) (fun got _ => Opens got) ([5, 1, 0] ++ request) := by
  rw [negotiate_eq]
  have hrequest := ((Exchange.exact_write request).mapError Fault.writeRequest).bind fun _ =>
    exact_readReply
  rw [List.append_nil] at hrequest
  refine (exact_agree.bind fun _ => hrequest).congr fun got _ => ⟨?_, ?_⟩
  · rintro ⟨_, _, _, rfl, rfl, _, _, reply, rfl, rfl, hreply⟩
    exact ⟨reply, rfl, hreply⟩
  · rintro ⟨reply, rfl, hreply⟩
    exact ⟨_, (), _, rfl, rfl, [], (), reply, rfl, rfl, hreply⟩

/-- How a negotiation for `request` on the stream `s` ends, with a result and a stream. -/
structure Negotiated (request : Bytes) (s : Stream) (result : Except Fault Unit) (t : Stream) :
    Prop where
  /-- It succeeds just when there is room for all that is said and an opening comes first. -/
  succeeds : result = .ok () ↔
    s.Takes (3 + request.length) ∧ ∃ opening, Opens opening ∧ opening <+: s.incoming
  /-- Then no byte behind the opening was read. -/
  tunnel : ∀ opening, result = .ok () → Opens opening → opening <+: s.incoming →
    s.Moves opening ([5, 1, 0] ++ request) t
  /-- Nothing but the greeting and the request is ever written, and the request only after the
  proxy's choice. -/
  said : ∃ got sent, s.Moves got sent t ∧ sent <+: [5, 1, 0] ++ request ∧
    (¬ [5, 0] <+: s.incoming → sent <+: [5, 1, 0])

/-- A negotiation takes exactly the bytes that open a tunnel and writes nothing out of turn, however
the bytes of the proxy arrive. -/
theorem negotiate_exact (request : Bytes) (s : Stream) :
    Negotiated request s (negotiate request s).1 (negotiate request s).2 ∧
      ∀ pieces : List Bytes, pieces.flatten = s.incoming →
        let t := { s with pieces := pieces }
        (negotiate request t).1 = (negotiate request s).1 ∧
          (negotiate request t).2.written = (negotiate request s).2.written ∧
          (negotiate request t).2.consumed = (negotiate request s).2.consumed ∧
          (negotiate request t).2.incoming = (negotiate request s).2.incoming := by
  have hexact := exact_negotiate request
  have hlength : ([5, 1, 0] ++ request).length = 3 + request.length := by
    rw [List.length_append]
    rfl
  refine ⟨⟨?_, ?_, ?_⟩, fun pieces hpieces => hexact.uniform.of_pieces hpieces⟩
  · rw [← hlength]
    exact hexact.eq_ok_iff
  · intro opening hok hopens hs
    have hdone : (negotiate request s).1 = .ok () ∧ _ :=
      hexact.complete hopens hs (hexact.eq_ok_iff.1 hok).1
    exact hdone.2
  · obtain ⟨-, got, sent, hmoves, -, hsent⟩ := hexact.uniform s.alike_refl
    refine ⟨got, sent, hmoves, hsent, fun hrefused => ?_⟩
    -- Without the proxy's choice the agreement fails, and nothing comes after it.
    obtain ⟨-, got', sent', hmoves', -, hsent'⟩ := exact_agree.uniform s.alike_refl
    cases hagree : (agree s).1 with
    | ok =>
      obtain ⟨_, rfl, hfirst⟩ := exact_agree.sound hagree
      exact absurd hfirst.isPrefix hrefused
    | error fault =>
      rw [negotiate_eq, Exchange.bind_of_error hagree] at hmoves
      rwa [List.append_cancel_left (hmoves.written.symm.trans hmoves'.written)]

end Socks

end SplitDns
