import SplitDns.Transport.Stream

/-!
# Exchanges

All that an exchange does to a stream is to read bytes at the front of those to come and to write
bytes behind those written (`Stream.Moves`).  `Exchange.Exact` says which bytes these are, and that
neither they nor the result depend on the pieces in which the bytes to come arrive.  The steps of an
exchange are exact one by one, and so is what is put together of them (`Exchange.Exact.bind`).
-/

namespace SplitDns

namespace Stream

/-- Whether there is room to write `n` bytes. -/
def Takes (s : Stream) (n : Nat) : Prop :=
  ∀ room, s.room = some room → n ≤ room

theorem takes_of_room (s : Stream) (n : Nat) (h : s.room = none) : s.Takes n := by
  intro room hroom
  rw [h] at hroom
  cases hroom

/-- The bytes among some that there is room for. -/
def taken (s : Stream) (bs : Bytes) : Bytes :=
  s.room.elim bs bs.take

theorem taken_isPrefix (s : Stream) (bs : Bytes) : s.taken bs <+: bs := by
  unfold taken
  cases s.room with
  | none => exact List.prefix_refl bs
  | some room => exact List.take_prefix room bs

theorem takes_taken (s : Stream) (bs : Bytes) : s.Takes (s.taken bs).length := by
  intro room h
  rw [taken, h]
  exact List.length_take_le room bs

theorem taken_eq_self {s : Stream} {bs : Bytes} (h : s.Takes bs.length) : s.taken bs = bs := by
  unfold taken
  cases hroom : s.room with
  | none => rfl
  | some room => exact List.take_of_length_le (h room hroom)

/-! ## Moves -/

/-- What becomes of a stream `s` when the bytes `got` are read and the bytes `sent` are written. -/
structure Moves (s : Stream) (got sent : Bytes) (t : Stream) : Prop where
  incoming : s.incoming = got ++ t.incoming
  consumed : t.consumed = s.consumed + got.length
  written : t.written = s.written ++ sent
  takes : s.Takes sent.length
  room : t.room = s.room.map (· - sent.length)
  ending : t.ending = s.ending

/-- Streams on which the same can happen from now on. -/
structure Alike (s t : Stream) : Prop where
  incoming : s.incoming = t.incoming
  room : s.room = t.room
  ending : s.ending = t.ending

theorem alike_refl (s : Stream) : s.Alike s :=
  ⟨rfl, rfl, rfl⟩

variable {s t u s' t' : Stream} {got got' sent sent' : Bytes}

namespace Moves

theorem refl (s : Stream) : s.Moves [] [] s := by
  refine ⟨rfl, rfl, (List.append_nil _).symm, fun room _ => Nat.zero_le room, ?_, rfl⟩
  cases s.room with
  | none => rfl
  | some room => rfl

theorem takes_iff (h : s.Moves got sent t) (n : Nat) : t.Takes n ↔ s.Takes (sent.length + n) := by
  have htakes := h.takes
  rw [Takes, h.room]
  cases hroom : s.room with
  | none => simp [Takes, hroom]
  | some room =>
    have hle : sent.length ≤ room := htakes room hroom
    simp only [Takes, hroom, Option.map_some, Option.some.injEq, forall_eq']
    omega

theorem trans (h : s.Moves got sent t) (h' : t.Moves got' sent' u) :
    s.Moves (got ++ got') (sent ++ sent') u where
  incoming := by rw [h.incoming, h'.incoming, List.append_assoc]
  consumed := by
    rw [h'.consumed, h.consumed, List.length_append]
    omega
  written := by rw [h'.written, h.written, List.append_assoc]
  takes := by
    rw [List.length_append]
    exact (h.takes_iff _).1 h'.takes
  room := by
    rw [h'.room, h.room, Option.map_map, List.length_append]
    congr 1
    funext room
    exact Nat.sub_sub room sent.length sent'.length
  ending := h'.ending.trans h.ending

/-- What is left of streams that are alike after the same moves is alike. -/
theorem alike (h : s.Moves got sent s') (h' : t.Moves got sent t') (ha : s.Alike t) :
    s'.Alike t' where
  incoming := by
    have hincoming := ha.incoming
    rw [h.incoming, h'.incoming] at hincoming
    exact List.append_cancel_left hincoming
  room := by rw [h.room, h'.room, ha.room]
  ending := by rw [h.ending, h'.ending, ha.ending]

theorem isPrefix (h : s.Moves got sent t) : got <+: s.incoming :=
  ⟨t.incoming, h.incoming.symm⟩

/-- What follows the bytes that were read is still to come. -/
theorem incoming_eq {rest : Bytes} (h : s.Moves got sent t) (hs : s.incoming = got ++ rest) :
    t.incoming = rest := by
  rw [h.incoming] at hs
  exact List.append_cancel_left hs

end Moves

theorem gather_fst (n : Nat) (ps : List Bytes) : (gather n ps).1 = ps.flatten.take n := by
  induction ps generalizing n with
  | nil => simp [gather]
  | cons p ps ih =>
    by_cases h : n ≤ p.length
    · rw [gather, if_pos h, List.flatten_cons, List.take_append_of_le_length h]
    · rw [gather, if_neg h, List.flatten_cons, List.take_append,
        List.take_of_length_le (by omega : p.length ≤ n), ← ih]

theorem gather_snd (n : Nat) (ps : List Bytes) : (gather n ps).2.flatten = ps.flatten.drop n := by
  induction ps generalizing n with
  | nil => simp [gather]
  | cons p ps ih =>
    by_cases h : n ≤ p.length
    · rw [gather, if_pos h, List.flatten_cons, List.flatten_cons, List.drop_append_of_le_length h]
    · rw [gather, if_neg h, List.flatten_cons, List.drop_append,
        List.drop_of_length_le (by omega : p.length ≤ n), ← ih]
      rfl

end Stream

/-! ## Steps -/

namespace Exchange

variable {ε ε' α β : Type}

theorem bind_of_ok {x : Exchange ε α} {f : α → Exchange ε β} {s : Stream} {a : α}
    (h : (x s).1 = .ok a) : bind x f s = f a (x s).2 := by
  rw [bind, ← Prod.eta (x s), h]

theorem bind_of_error {x : Exchange ε α} {f : α → Exchange ε β} {s : Stream} {e : ε}
    (h : (x s).1 = .error e) : bind x f s = (.error e, (x s).2) := by
  rw [bind, ← Prod.eta (x s), h]

theorem mapError_apply (f : ε → ε') (x : Exchange ε α) (s : Stream) :
    mapError f x s = ((x s).1.mapError f, (x s).2) := by
  unfold mapError
  obtain ⟨result, t⟩ := x s
  cases result <;> rfl

theorem read_apply (n : Nat) (s : Stream) :
    read n s =
      (if n ≤ s.incoming.length then .ok (s.incoming.take n) else .error (.ofEnding s.ending),
        { s with
          pieces := (Stream.gather n s.pieces).2
          consumed := s.consumed + (s.incoming.take n).length }) := by
  have hfst : (Stream.gather n s.pieces).1 = s.incoming.take n := Stream.gather_fst n s.pieces
  have hlength : (s.incoming.take n).length = n ↔ n ≤ s.incoming.length := by
    rw [List.length_take]
    omega
  show (if (Stream.gather n s.pieces).1.length = n then _ else _) = _
  rw [hfst]
  by_cases h : n ≤ s.incoming.length
  · rw [if_pos h, if_pos (hlength.2 h)]
  · rw [if_neg h, if_neg (mt hlength.1 h)]

theorem moves_read (n : Nat) (s : Stream) : s.Moves (s.incoming.take n) [] (read n s).2 := by
  have hrefl := Stream.Moves.refl s
  rw [read_apply]
  refine ⟨?_, rfl, hrefl.written, hrefl.takes, hrefl.room, rfl⟩
  show s.incoming = _ ++ (Stream.gather n s.pieces).2.flatten
  rw [Stream.gather_snd]
  exact (List.take_append_drop n s.incoming).symm

theorem write_eq_ok_iff (bs : Bytes) (s : Stream) :
    (write bs s).1 = .ok () ↔ s.Takes bs.length := by
  unfold write Stream.Takes
  cases s.room with
  | none => simp
  | some room => by_cases h : bs.length ≤ room <;> simp [h]

theorem moves_write (bs : Bytes) (s : Stream) : s.Moves [] (s.taken bs) (write bs s).2 := by
  have htakes := s.takes_taken bs
  unfold write
  cases hroom : s.room with
  | none =>
    refine ⟨rfl, rfl, ?_, htakes, ?_, rfl⟩
    · rw [Stream.taken, hroom]
      rfl
    · rw [hroom]
      rfl
  | some room =>
    have hsent : s.taken bs = bs.take room := by rw [Stream.taken, hroom]; rfl
    have hleft : room - bs.length = room - (bs.take room).length := by
      rw [List.length_take]
      omega
    rw [hsent] at htakes ⊢
    by_cases h : bs.length ≤ room
    · simp only [h, if_true]
      exact ⟨rfl, rfl, rfl, htakes, by rw [hroom, hleft]; rfl, rfl⟩
    · simp only [h, if_false]
      exact ⟨rfl, rfl, rfl, htakes, by rw [hroom, hleft]; rfl, rfl⟩

/-- On streams that are alike an exchange comes to the same, reads the same bytes and writes the
same, which are some of the first of `sends`. -/
def Uniform (x : Exchange ε α) (sends : Bytes) : Prop :=
  ∀ ⦃s t : Stream⦄, s.Alike t → (x s).1 = (x t).1 ∧
    ∃ got sent, s.Moves got sent (x s).2 ∧ t.Moves got sent (x t).2 ∧ sent <+: sends

/-- An exchange that succeeds with `a` when the bytes to come start with bytes `got` such that
`takes got a`, and there is room for the bytes `sends`.  Then these are read and written, no others,
and it does not succeed otherwise. -/
structure Exact (x : Exchange ε α) (takes : Bytes → α → Prop) (sends : Bytes) : Prop where
  uniform : x.Uniform sends
  sound : ∀ {s : Stream} {a : α}, (x s).1 = .ok a →
    ∃ got, takes got a ∧ s.Moves got sends (x s).2
  complete : ∀ {s : Stream} {a : α} {got : Bytes}, takes got a → got <+: s.incoming →
    s.Takes sends.length → (x s).1 = .ok a ∧ s.Moves got sends (x s).2

/-! ## Exact exchanges -/

section

variable {x : Exchange ε α} {f : α → Exchange ε β} {takes takes' : Bytes → α → Prop}
  {next : α → Bytes → β → Prop} {sends sends' : Bytes}

theorem exact_pure (a : α) :
    Exact (pure a : Exchange ε α) (fun got b => got = [] ∧ b = a) [] where
  uniform s t _ := ⟨rfl, [], [], .refl s, .refl t, List.prefix_refl []⟩
  sound {s b} h := by
    cases h
    exact ⟨[], ⟨rfl, rfl⟩, .refl s⟩
  complete {s b got} h _ _ := by
    obtain ⟨rfl, rfl⟩ := h
    exact ⟨rfl, .refl s⟩

theorem exact_fail (e : ε) (sends : Bytes) (h : ∀ got a, ¬ takes got a) :
    Exact (fail e : Exchange ε α) takes sends where
  uniform s t _ := ⟨rfl, [], [], .refl s, .refl t, List.nil_prefix⟩
  sound hok := by cases hok
  complete hgot := absurd hgot (h _ _)

theorem exact_read (n : Nat) : Exact (read n) (fun got bs => got = bs ∧ bs.length = n) [] where
  uniform s t h := by
    have hread := moves_read n t
    rw [← h.incoming] at hread
    refine ⟨?_, _, [], moves_read n s, hread, List.prefix_refl []⟩
    rw [read_apply, read_apply, h.incoming, h.ending]
  sound {s bs} h := by
    rw [read_apply] at h
    by_cases hn : n ≤ s.incoming.length
    · simp only [if_pos hn] at h
      cases h
      exact ⟨_, ⟨rfl, List.length_take_of_le hn⟩, moves_read n s⟩
    · simp only [if_neg hn] at h
      cases h
  complete {s bs got} h hs _ := by
    obtain ⟨rfl, rfl⟩ := h
    have htake : s.incoming.take got.length = got := (List.prefix_iff_eq_take.1 hs).symm
    have hmoves := moves_read got.length s
    rw [htake] at hmoves
    refine ⟨?_, hmoves⟩
    rw [read_apply, htake]
    exact if_pos hs.length_le

theorem exact_write (bs : Bytes) : Exact (write bs) (fun got _ => got = []) bs where
  uniform s t h := by
    have htaken : t.taken bs = s.taken bs := by rw [Stream.taken, Stream.taken, h.room]
    have hwrite := moves_write bs t
    rw [htaken] at hwrite
    refine ⟨?_, [], _, moves_write bs s, hwrite, s.taken_isPrefix bs⟩
    unfold write
    rw [h.room]
    cases t.room with
    | none => rfl
    | some room => by_cases hle : bs.length ≤ room <;> simp [hle]
  sound {s _} h := by
    have hmoves := moves_write bs s
    rw [Stream.taken_eq_self ((write_eq_ok_iff bs s).1 h)] at hmoves
    exact ⟨[], rfl, hmoves⟩
  complete {s _ got} h _ hroom := by
    subst h
    have hmoves := moves_write bs s
    rw [Stream.taken_eq_self hroom] at hmoves
    exact ⟨(write_eq_ok_iff bs s).2 hroom, hmoves⟩

theorem Exact.mapError (h : Exact x takes sends) (g : ε → ε') :
    Exact (mapError g x) takes sends where
  uniform s t ha := by
    obtain ⟨hresult, hmoves⟩ := h.uniform ha
    rw [mapError_apply, mapError_apply, hresult]
    exact ⟨rfl, hmoves⟩
  sound {s a} hok := by
    rw [mapError_apply] at hok ⊢
    cases hx : (x s).1 with
    | error e =>
      rw [hx] at hok
      cases hok
    | ok b =>
      rw [hx] at hok
      cases hok
      exact h.sound hx
  complete hgot hs hroom := by
    obtain ⟨hok, hmoves⟩ := h.complete hgot hs hroom
    rw [mapError_apply, hok]
    exact ⟨rfl, hmoves⟩

/-- One exact exchange after the other.  The second one has to be exact only for what the first one
may come to. -/
theorem Exact.bindOf (hx : Exact x takes sends) (next : α → Bytes → β → Prop)
    (hf : ∀ got a, takes got a → Exact (f a) (next a) sends') :
    Exact (Exchange.bind x f) (fun got b => ∃ first a second,
      got = first ++ second ∧ takes first a ∧ next a second b) (sends ++ sends') where
  uniform s t ha := by
    obtain ⟨hresult, got, sent, hs, ht, hsent⟩ := hx.uniform ha
    cases hok : (x s).1 with
    | error e =>
      rw [bind_of_error hok, bind_of_error (hresult.symm.trans hok)]
      exact ⟨rfl, got, sent, hs, ht, hsent.trans (List.prefix_append sends sends')⟩
    | ok a =>
      -- The first exchange wrote all it had to say, so what the second one writes comes behind.
      obtain ⟨got', hgot', hall⟩ := hx.sound hok
      have hsends : sent = sends := List.append_cancel_left (hs.written.symm.trans hall.written)
      obtain ⟨hresult', got'', sent', hs', ht', hsent'⟩ :=
        (hf got' a hgot').uniform (hs.alike ht ha)
      rw [bind_of_ok hok, bind_of_ok (hresult.symm.trans hok)]
      refine ⟨hresult', _, _, hs.trans hs', ht.trans ht', ?_⟩
      rw [hsends]
      exact (List.prefix_append_right_inj sends).2 hsent'
  sound {s b} hok := by
    cases hx' : (x s).1 with
    | error e =>
      rw [bind_of_error hx'] at hok
      cases hok
    | ok a =>
      rw [bind_of_ok hx'] at hok ⊢
      obtain ⟨first, hfirst, hmoves⟩ := hx.sound hx'
      obtain ⟨second, hsecond, hmoves'⟩ := (hf first a hfirst).sound hok
      exact ⟨_, ⟨first, a, second, rfl, hfirst, hsecond⟩, hmoves.trans hmoves'⟩
  complete {s b got} hgot hs hroom := by
    obtain ⟨first, a, second, rfl, hfirst, hsecond⟩ := hgot
    rw [List.length_append] at hroom
    have hroom' : s.Takes sends.length := fun room h =>
      Nat.le_trans (Nat.le_add_right _ _) (hroom room h)
    obtain ⟨hok, hmoves⟩ := hx.complete hfirst ((List.prefix_append first second).trans hs) hroom'
    have hrest : second <+: (x s).2.incoming := by
      rw [hmoves.incoming] at hs
      exact (List.prefix_append_right_inj first).1 hs
    obtain ⟨hok', hmoves'⟩ :=
      (hf first a hfirst).complete hsecond hrest ((hmoves.takes_iff _).2 hroom)
    rw [bind_of_ok hok]
    exact ⟨hok', hmoves.trans hmoves'⟩

theorem Exact.bind (hx : Exact x takes sends) (hf : ∀ a, Exact (f a) (next a) sends') :
    Exact (Exchange.bind x f) (fun got b => ∃ first a second,
      got = first ++ second ∧ takes first a ∧ next a second b) (sends ++ sends') :=
  hx.bindOf next fun _ a _ => hf a

theorem Exact.congr (h : Exact x takes sends) (htakes : ∀ got a, takes got a ↔ takes' got a) :
    Exact x takes' sends := by
  have heq : takes = takes' := funext fun got => funext fun a => propext (htakes got a)
  rwa [← heq]

/-! ## What follows of exactness -/

theorem Exact.eq_ok_iff (h : Exact x takes sends) {s : Stream} {a : α} :
    (x s).1 = .ok a ↔ s.Takes sends.length ∧ ∃ got, takes got a ∧ got <+: s.incoming := by
  constructor
  · intro hok
    obtain ⟨got, hgot, hmoves⟩ := h.sound hok
    exact ⟨hmoves.takes, got, hgot, hmoves.isPrefix⟩
  · rintro ⟨hroom, got, hgot, hs⟩
    exact (h.complete hgot hs hroom).1

/-- The pieces in which the bytes to come arrive do not matter. -/
theorem Uniform.of_pieces (h : x.Uniform sends) {s : Stream} {pieces : List Bytes}
    (hpieces : pieces.flatten = s.incoming) :
    (x { s with pieces := pieces }).1 = (x s).1 ∧
      (x { s with pieces := pieces }).2.written = (x s).2.written ∧
      (x { s with pieces := pieces }).2.consumed = (x s).2.consumed ∧
      (x { s with pieces := pieces }).2.incoming = (x s).2.incoming := by
  have ha : ({ s with pieces := pieces } : Stream).Alike s := ⟨hpieces, rfl, rfl⟩
  obtain ⟨hresult, got, sent, hs, ht, -⟩ := h ha
  exact ⟨hresult, hs.written.trans ht.written.symm, hs.consumed.trans ht.consumed.symm,
    (hs.alike ht ha).incoming⟩

end

end Exchange

end SplitDns
