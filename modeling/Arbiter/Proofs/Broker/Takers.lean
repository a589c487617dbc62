import Arbiter.Proofs.Broker.Fanout

/-!
Who takes an event that is offered to all. Over a transport that a refused send leaves as it was, a
session that does not take the event changes nothing for those after it, so a fan-out counts no
session exactly when none could have taken the event to begin with.
-/

namespace Arbiter

def Transport.Steady {σ : Type} (t : Transport σ) : Prop :=
  ∀ {s channel m e}, (t.send s channel m).1 = .error e → (t.send s channel m).2 = s

def Session.found (s : Session) : Session := { s with lost := false }

namespace Exchange

variable {ω σ : Type} {t : Transport σ} {x y : Exchange ω σ} {id : HeadId} {s : SessionId}

def Takes (t : Transport σ) (id : HeadId) (x : Exchange ω σ) (s : SessionId) : Prop :=
  ∃ sess h, x.broker.sessions.get? s = some sess ∧ x.broker.heads.get? id = some h ∧
    sess.interested h.key = true ∧ (h.kind = .ask → sess.pending.get? h.token = none) ∧
    (t.send x.transport sess.channel h.message).1 = .ok ()

theorem takes_iff {sess : Session} {h : Head ω} (hs : x.broker.sessions.get? s = some sess)
    (hh : x.broker.heads.get? id = some h) : Takes t id x s ↔ sess.interested h.key = true ∧
      (h.kind = .ask → sess.pending.get? h.token = none) ∧
      (t.send x.transport sess.channel h.message).1 = .ok () := by
  constructor
  · rintro ⟨sess', h', hs', hh', htakes⟩
    rw [hs, Option.some.injEq] at hs'
    rw [hh, Option.some.injEq] at hh'
    rw [hs', hh']
    exact htakes
  · exact fun htakes => ⟨sess, h, hs, hh, htakes⟩

structure Passed (x y : Exchange ω σ) : Prop where
  transport : y.transport = x.transport
  heads : y.broker.heads = x.broker.heads
  sessions (s : SessionId) : (y.broker.sessions.get? s).map Session.found =
    (x.broker.sessions.get? s).map Session.found

theorem Passed.refl (x : Exchange ω σ) : Passed x x := ⟨rfl, rfl, fun _ => rfl⟩

theorem Passed.symm (h : Passed x y) : Passed y x :=
  ⟨h.transport.symm, h.heads.symm, fun s => (h.sessions s).symm⟩

theorem Passed.takes (h : Passed x y) (htakes : Takes t id x s) : Takes t id y s := by
  obtain ⟨sess, head, hs, hh, hkey, hfree, hsend⟩ := htakes
  have hfound := h.sessions s
  rw [hs, Option.map_some, Option.map_eq_some_iff] at hfound
  obtain ⟨sess', hs', hfound⟩ := hfound
  have hregistrations := congrArg Session.registrations hfound
  have hpending := congrArg Session.pending hfound
  have hchannel := congrArg Session.channel hfound
  simp only [Session.found] at hregistrations hpending hchannel
  refine ⟨sess', head, hs', h.heads ▸ hh, ?_, fun hkind => hpending ▸ hfree hkind, ?_⟩
  · rw [Session.interested, hregistrations]
    exact hkey
  · rw [h.transport, hchannel]
    exact hsend

theorem Passed.takes_iff (h : Passed x y) : Takes t id y s ↔ Takes t id x s :=
  ⟨h.symm.takes, h.takes⟩

theorem offer_cases (ht : t.Steady) (id : HeadId) (n : Nat) (x : Exchange ω σ) (s : SessionId) :
    Takes t id x s ∧ (offer t id (n, x) s).1 = n + 1 ∨
      ¬Takes t id x s ∧ (offer t id (n, x) s).1 = n ∧ Passed x (offer t id (n, x) s).2 := by
  have hspec := dispatch_spec t x s id
  cases hd : x.dispatch t s id with
  | mk result y =>
    rw [hd] at hspec
    simp only [offer, hd]
    cases hspec with
    | unknownSession hs =>
      refine .inr ⟨?_, rfl, .refl _⟩
      rintro ⟨sess, h, hs', -⟩
      rw [hs] at hs'
      cases hs'
    | unknownHead hs hh =>
      refine .inr ⟨?_, rfl, .refl _⟩
      rintro ⟨sess, h, -, hh', -⟩
      rw [hh] at hh'
      cases hh'
    | notInterested hs hh hkey =>
      refine .inr ⟨?_, rfl, .refl _⟩
      rw [takes_iff hs hh, hkey]
      simp
    | duplicate hs hh hkey hkind hpending =>
      refine .inr ⟨?_, rfl, .refl _⟩
      rw [takes_iff hs hh, hkind, hpending]
      simp
    | @refused sess h cause hs hh hkey hsend =>
      have hsteady : (x.send t (.event s id) sess.channel h.message).2.transport = x.transport :=
        ht hsend
      have hnot : ¬Takes t id x s := by
        rw [takes_iff hs hh, show (t.send x.transport sess.channel h.message).1 = _ from hsend]
        simp
      have hcause : (Refusal.ofSend cause).IsSend := by cases cause <;> decide
      simp only [if_pos hcause]
      exact .inr ⟨hnot, trivial, hsteady, rfl,
        fun s' => Table.map_get?_modify x.broker.sessions s s' fun _ => rfl⟩
    | sent hs hh hkey hkind hsend =>
      exact .inl ⟨(takes_iff hs hh).mpr ⟨hkey, by simp [hkind], hsend⟩, rfl⟩
    | queued hs hh hkey hkind hfree hsend =>
      exact .inl ⟨(takes_iff hs hh).mpr ⟨hkey, fun _ => hfree, hsend⟩, rfl⟩

theorem foldl_offer_le (ht : t.Steady) (id : HeadId) (ss : List SessionId) (n : Nat)
    (x : Exchange ω σ) : n ≤ (ss.foldl (offer t id) (n, x)).1 := by
  induction ss generalizing n x with
  | nil => exact Nat.le_refl n
  | cons s ss ih =>
    refine Nat.le_trans ?_ (ih (offer t id (n, x) s).1 (offer t id (n, x) s).2)
    rcases offer_cases ht id n x s with ⟨-, hcount⟩ | ⟨-, hcount, -⟩ <;> omega

theorem foldl_offer_eq (ht : t.Steady) (ss : List SessionId) (n : Nat) (x : Exchange ω σ) :
    (ss.foldl (offer t id) (n, x)).1 = n ↔ ∀ s ∈ ss, ¬Takes t id x s := by
  induction ss generalizing n x with
  | nil => simp
  | cons s ss ih =>
    rw [List.foldl_cons, List.forall_mem_cons]
    rcases offer_cases ht id n x s with ⟨htakes, hcount⟩ | ⟨hnot, hcount, hpassed⟩
    · have hle : (offer t id (n, x) s).1 ≤ (ss.foldl (offer t id) (offer t id (n, x) s)).1 :=
        foldl_offer_le ht id ss _ _
      exact iff_of_false (by omega) fun h => h.1 htakes
    · have hrest := ih n (offer t id (n, x) s).2
      have hpair : offer t id (n, x) s = (n, (offer t id (n, x) s).2) := Prod.ext hcount rfl
      rw [hpair, hrest]
      simp only [hpassed.takes_iff, hnot, not_false_eq_true, true_and]

theorem dispatchAll_eq_zero (ht : t.Steady) {h : Head ω} (hh : x.broker.heads.get? id = some h)
    {n : Nat} (hn : (x.dispatchAll t id).1 = .ok n) :
    n = 0 ↔ ∀ s ∈ x.broker.reachableSessions, ¬Takes t id x s := by
  unfold dispatchAll at hn
  rw [if_pos (by rw [Table.contains, hh]; rfl)] at hn
  rw [← Except.ok.inj hn]
  exact foldl_offer_eq ht x.broker.reachableSessions 0 x

end Exchange

end Arbiter
