import Mathlib.Data.List.Forall2
import SplitDns.Proofs.Timing

/-!
# Runs in lockstep

Two runs are alike when they take the same steps but for what queries and replies say
(`Run.Alike`).  From worlds that stand in a relation which such steps keep (`Run.Keeps`), they lead
to worlds that do and to ends that are alike (`Run.Alike.execAt`).  Requests whose questions have
one key and go to one group are looked up alike (`Resolver.alike_lookUp`).
-/

namespace SplitDns

variable {σ : Type}

/-! ## Histories -/

/-- Histories that go on from some events by events that stand in a relation one by one. -/
def Event.Since (A : Event σ → Event σ → Prop) (es₁ es₂ hist₁ hist₂ : List (Event σ)) : Prop :=
  ∃ fs₁ fs₂, hist₁ = es₁ ++ fs₁ ∧ hist₂ = es₂ ++ fs₂ ∧ List.Forall₂ A fs₁ fs₂

namespace Event.Since

variable {A : Event σ → Event σ → Prop} {es₁ es₂ hist₁ hist₂ : List (Event σ)}

theorem start (A : Event σ → Event σ → Prop) (es₁ es₂ : List (Event σ)) :
    Since A es₁ es₂ es₁ es₂ :=
  ⟨[], [], (List.append_nil _).symm, (List.append_nil _).symm, .nil⟩

theorem snoc {a b : Event σ} (h : Since A es₁ es₂ hist₁ hist₂) (hab : A a b) :
    Since A es₁ es₂ (hist₁ ++ [a]) (hist₂ ++ [b]) := by
  obtain ⟨fs₁, fs₂, rfl, rfl, hfs⟩ := h
  exact ⟨fs₁ ++ [a], fs₂ ++ [b], List.append_assoc .., List.append_assoc ..,
    List.rel_append hfs (.cons hab .nil)⟩

theorem drop (h : Since A es₁ es₂ hist₁ hist₂) :
    List.Forall₂ A (hist₁.drop es₁.length) (hist₂.drop es₂.length) := by
  obtain ⟨fs₁, fs₂, rfl, rfl, hfs⟩ := h
  rwa [List.drop_left, List.drop_left]

end Event.Since

/-! ## Runs -/

/-- What ends, queries and replies of two runs have to do with each other. -/
structure Likeness where
  ends : Except Failure Outcome → Except Failure Outcome → Prop
  queries : Message → Message → Prop
  replies : Message → Message → Prop

namespace Run

/-- Runs that use the cache under one key and otherwise do alike things; what they make of a
server's reply depends on the answer that comes in time. -/
inductive Alike (l : Likeness) (timeout : Nat) (key : CacheKey) : Run σ → Run σ → Prop
  | done {a b : Except Failure Outcome} (h : l.ends a b) : Alike l timeout key (.done a) (.done b)
  | lookUp {f g : Lookup → Run σ} (h : ∀ result, Alike l timeout key (f result) (g result)) :
      Alike l timeout key (.lookUp key f) (.lookUp key g)
  | ask {server : σ} {p q : Message} {f g : ServerReply → Run σ} (hq : l.queries p q)
      (h : ∀ a b : ServerReply, a.answer? timeout = b.answer? timeout →
        Alike l timeout key (f a) (g b)) :
      Alike l timeout key (.ask server p f) (.ask server q g)
  | store {answer : Option Message} {x y : Run σ} (h : Alike l timeout key x y) :
      Alike l timeout key (.store key answer x) (.store key answer y)
  | add {group : Text} {set : SetBinding} {ip : Ipv4} {x y : Run σ}
      (h : Alike l timeout key x y) :
      Alike l timeout key (.add group set ip x) (.add group set ip y)
  | write {m n : Message} {x y : Run σ} (hm : l.replies m n) (h : Alike l timeout key x y) :
      Alike l timeout key (.write m x) (.write n y)

/-- A relation of worlds that steps which are alike keep, and in which they see the same. -/
structure Keeps (l : Likeness) (timeout : Nat) (key : CacheKey) (env₁ env₂ : Surroundings σ)
    (R : World σ → World σ → Prop) : Prop where
  lookUp : ∀ {w₁ w₂ : World σ} (now : Nat), R w₁ w₂ →
    ((w₁.atTime now).lookUp key).1 = ((w₂.atTime now).lookUp key).1 ∧
      R ((w₁.atTime now).lookUp key).2 ((w₂.atTime now).lookUp key).2
  ask : ∀ {w₁ w₂ : World σ} (now : Nat) (server : σ) {p q : Message}, R w₁ w₂ → l.queries p q →
    ((w₁.atTime now).ask env₁ server p).1.answer? timeout =
        ((w₂.atTime now).ask env₂ server q).1.answer? timeout ∧
      R ((w₁.atTime now).ask env₁ server p).2 ((w₂.atTime now).ask env₂ server q).2
  store : ∀ {w₁ w₂ : World σ} (now : Nat) (answer : Option Message), R w₁ w₂ →
    R ((w₁.atTime now).store key answer) ((w₂.atTime now).store key answer)
  add : ∀ {w₁ w₂ : World σ} (now : Nat) (group : Text) (set : SetBinding) (ip : Ipv4), R w₁ w₂ →
    R ((w₁.atTime now).add env₁ group set ip) ((w₂.atTime now).add env₂ group set ip)
  write : ∀ {w₁ w₂ : World σ} (now : Nat) {m n : Message}, R w₁ w₂ → l.replies m n →
    R ((w₁.atTime now).write env₁ m) ((w₂.atTime now).write env₂ n)

variable {l : Likeness} {timeout : Nat} {key : CacheKey}

/-- Runs that are alike lead from related worlds to related worlds and to ends that are alike. -/
theorem Alike.execAt {x y : Run σ} (h : Alike l timeout key x y) {env₁ env₂ : Surroundings σ}
    {R : World σ → World σ → Prop} (hR : Keeps l timeout key env₁ env₂ R) (clock : Nat → Nat)
    {w₁ w₂ : World σ} (hw : R w₁ w₂) :
    l.ends (x.execAt env₁ clock w₁).1 (y.execAt env₂ clock w₂).1 ∧
      R (x.execAt env₁ clock w₁).2 (y.execAt env₂ clock w₂).2 := by
  induction h generalizing clock w₁ w₂ with
  | done h => exact ⟨h, hw⟩
  | lookUp h ih =>
    obtain ⟨hresult, hw⟩ := hR.lookUp (clock 0) hw
    have h' := ih ((w₁.atTime (clock 0)).lookUp key).1 (clock ∘ Nat.succ) hw
    rw [Run.execAt, Run.execAt]
    simp only [← hresult]
    exact h'
  | ask hq h ih =>
    obtain ⟨hanswer, hw⟩ := hR.ask (clock 0) _ hw hq
    exact ih _ _ hanswer (clock ∘ Nat.succ) hw
  | store h ih => exact ih (clock ∘ Nat.succ) (hR.store (clock 0) _ hw)
  | add h ih => exact ih (clock ∘ Nat.succ) (hR.add (clock 0) _ _ _ hw)
  | write hm h ih => exact ih (clock ∘ Nat.succ) (hR.write (clock 0) hw hm)

theorem Alike.dispatch {query₁ query₂ : Message} {next₁ next₂ : Option Message → Run σ}
    (hq : l.queries query₁ query₂) (h : ∀ answer, Alike l timeout key (next₁ answer) (next₂ answer))
    (servers : List σ) :
    Alike l timeout key (dispatch timeout query₁ next₁ servers)
      (dispatch timeout query₂ next₂ servers) := by
  induction servers with
  | nil => exact h none
  | cons server rest ih =>
    refine .ask hq fun a b hab => ?_
    rw [hab]
    cases b.answer? timeout with
    | none => exact ih
    | some m => exact h (some m)

theorem Alike.addAll {group : Text} {set : SetBinding} {x y : Run σ}
    (h : Alike l timeout key x y) (ips : List Ipv4) :
    Alike l timeout key (addAll group set x ips) (addAll group set y ips) := by
  induction ips with
  | nil => exact h
  | cons ip ips ih => exact .add ih

end Run

namespace Resolver

variable {l : Likeness} {r : Resolver σ} {id₁ id₂ : UInt16} {request₁ request₂ : Message}
  {key : CacheKey}

theorem alike_finish (hends : ∀ a, l.ends a a)
    (hreplies : ∀ m, l.replies (Message.stamp request₁ m) (Message.stamp request₂ m))
    (g : ServerGroup σ) (answer : Option Message) :
    Run.Alike l r.timeout key (finish request₁ key g answer) (finish request₂ key g answer) := by
  refine .store ?_
  cases answer with
  | none => exact .done (hends _)
  | some m =>
    have hwrite : Run.Alike l r.timeout key
        (.write (Message.stamp request₁ m) (.done (.ok (.forwarded g.name))) : Run σ)
        (.write (Message.stamp request₂ m) (.done (.ok (.forwarded g.name)))) :=
      .write (hreplies m) (.done (hends _))
    simp only
    cases g.set with
    | none => exact hwrite
    | some set => exact hwrite.addAll m.ipv4Answers

/-- Requests with one key and one route, for which hosts sources have nothing. -/
theorem alike_lookUp {q₁ q₂ : Question} (hends : ∀ a, l.ends a a)
    (hreplies : ∀ m, l.replies (Message.stamp request₁ m) (Message.stamp request₂ m))
    (hqueries : l.queries (Message.queryFor q₁ request₁ id₁) (Message.queryFor q₂ request₂ id₂))
    (hkey : CacheKey.of q₁ request₁.extras = CacheKey.of q₂ request₂.extras)
    (hroute : r.router.resolve q₁.name.text = r.router.resolve q₂.name.text) :
    Run.Alike l r.timeout (CacheKey.of q₂ request₂.extras) (r.lookUp id₁ request₁ q₁)
      (r.lookUp id₂ request₂ q₂) := by
  rw [lookUp, hkey]
  refine .lookUp fun result => ?_
  cases result with
  | hit m => exact .write (hreplies m) (.done (hends _))
  | negative => exact .done (hends _)
  | miss =>
    simp only [forward, hroute]
    split
    · exact .done (hends _)
    next g _ => exact .dispatch hqueries (alike_finish hends hreplies g) g.servers

end Resolver

end SplitDns
