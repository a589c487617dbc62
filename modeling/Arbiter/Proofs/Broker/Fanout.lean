import Arbiter.Proofs.Broker.Continuity

/-!
One event offered to all. The count that a fan-out returns is the number of sessions that took the
event, and of a question it is the number of live instances of its head; the other heads are not
touched.
-/

namespace Arbiter.Exchange

variable {ω σ : Type} {t : Transport σ} {x y : Exchange ω σ} {id : HeadId}

theorem Offer.others (ho : Offer t id x y) {id' : HeadId} (hne : id' ≠ id) :
    y.broker.heads.get? id' = x.broker.heads.get? id' := by
  cases ho with
  | sent => rfl
  | queued =>
    refine (Table.get?_modify ..).trans ?_
    rw [if_neg hne]
  | lost => rfl

theorem offers_others (h : Relation.ReflTransGen (Offer t id) x y) {id' : HeadId}
    (hne : id' ≠ id) : y.broker.heads.get? id' = x.broker.heads.get? id' := by
  induction h with
  | refl => rfl
  | tail _ hoffer ih => rw [hoffer.others hne, ih]

def Spread (id : HeadId) (h : Head ω) (n : Nat) (b : Broker ω) : Prop :=
  ∃ h', b.heads.get? id = some h' ∧ h'.subject = h.subject ∧
    (h.kind = .ask → h'.live = n ∧ h'.instances.length = n) ∧
    (h.kind = .notify → h'.instances = [])

theorem Spread.kind {h h' : Head ω} {b : Broker ω} {n : Nat} (hs : Spread id h n b)
    (hh : b.heads.get? id = some h') : h'.kind = h.kind := by
  obtain ⟨h'', hh'', hsubject, -⟩ := hs
  obtain rfl : h' = h'' := Option.some.inj (hh.symm.trans hh'')
  simp only [Head.subject, Prod.mk.injEq] at hsubject
  exact hsubject.2.2.2.1

theorem Spread.congr {h : Head ω} {b b' : Broker ω} {n n' : Nat} (hs : Spread id h n b)
    (hheads : b'.heads = b.heads) (hn : h.kind = .ask → n' = n) : Spread id h n' b' := by
  obtain ⟨h', hh', hsubject, hask, hnotify⟩ := hs
  refine ⟨h', hheads ▸ hh', hsubject, fun hkind => ?_, hnotify⟩
  rw [hn hkind]
  exact hask hkind

theorem Spread.addInstance {h : Head ω} {b : Broker ω} {n : Nat} (hs : Spread id h n b)
    (hkind : h.kind = .ask) (s : SessionId) (token : UInt64) :
    Spread id h (n + 1) (b.addInstance s id token) := by
  obtain ⟨h', hh', hsubject, hask, -⟩ := hs
  obtain ⟨hlive, hlength⟩ := hask hkind
  refine ⟨_, (Broker.heads_addInstance hh' s token id).trans (if_pos rfl), hsubject, ?_, ?_⟩
  · intro _
    refine ⟨congrArg (· + 1) hlive, ?_⟩
    rw [List.length_append, hlength]
    rfl
  · intro hnotify
    rw [hkind] at hnotify
    cases hnotify

theorem offer_spread {h : Head ω} {n : Nat} (hs : Spread id h n x.broker) (s : SessionId) :
    Spread id h (offer t id (n, x) s).1 (offer t id (n, x) s).2.broker := by
  have hspec := dispatch_spec t x s id
  cases hd : x.dispatch t s id with
  | mk result y =>
    rw [hd] at hspec
    simp only [offer, hd]
    cases hspec with
    | unknownSession => exact hs
    | unknownHead => exact hs
    | notInterested => exact hs
    | duplicate => exact hs
    | @refused sess h' e =>
      cases e <;> exact hs
    | @sent sess h' hsess hh hkey hkind =>
      refine hs.congr rfl fun hask => ?_
      rw [← hs.kind hh, hkind] at hask
      cases hask
    | @queued sess h' hsess hh hkey hkind =>
      exact hs.addInstance (hs.kind hh ▸ hkind) s h'.token

theorem foldl_offer_spread {h : Head ω} {n : Nat} (ss : List SessionId)
    (hs : Spread id h n x.broker) :
    Spread id h (ss.foldl (offer t id) (n, x)).1 (ss.foldl (offer t id) (n, x)).2.broker := by
  induction ss generalizing n x with
  | nil => exact hs
  | cons s ss ih => exact ih (offer_spread hs s)

theorem dispatchAll_spread {h : Head ω} (hh : x.broker.heads.get? id = some h)
    (hinstances : h.instances = []) (hlive : h.live = 0) :
    ∃ n, (x.dispatchAll t id).1 = .ok n ∧ Spread id h n (x.dispatchAll t id).2.broker := by
  have hstart : Spread id h 0 x.broker :=
    ⟨h, hh, rfl, fun _ => ⟨hlive, congrArg List.length hinstances⟩, fun _ => hinstances⟩
  have hend := foldl_offer_spread (t := t) x.broker.reachableSessions hstart
  unfold dispatchAll
  rw [if_pos (by rw [Table.contains, hh]; rfl)]
  exact ⟨_, rfl, hend⟩

end Arbiter.Exchange
