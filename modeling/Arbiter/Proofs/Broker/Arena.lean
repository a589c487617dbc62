import Arbiter.Proofs.Broker.History

/-!
The tables of a broker as every run leaves them. Beyond their agreement no head is stuck: one whose
instances have all answered is resolved before the operation ends, so a head that has instances
waits for one of them at least.
-/

namespace Arbiter

namespace Broker

variable {ω : Type}

def Unstuck (ready : List HeadId) (b : Broker ω) : Prop :=
  ∀ {id h}, b.heads.get? id = some h → h.live = 0 →
    id ∈ ready ∨ h.instances = [] ∧ h.verdict = none

structure Arena (b : Broker ω) : Prop where
  pending {s token i} : (∃ sess, b.sessions.get? s = some sess ∧ sess.pending.get? token = some i) ↔
    ∃ inst, b.instances.get? i = some inst ∧ inst.session = s ∧ inst.token = token
  headed {i inst} : b.instances.get? i = some inst →
    ∃ h, b.heads.get? inst.head = some h ∧ h.token = inst.token ∧ h.kind = .ask ∧ i ∈ h.instances
  member {id h i} : b.heads.get? id = some h → i ∈ h.instances →
    ∃ inst, b.instances.get? i = some inst ∧ inst.head = id
  nodup {id h} : b.heads.get? id = some h → h.instances.Nodup
  single {i j inst inst'} : b.instances.get? i = some inst → b.instances.get? j = some inst' →
    inst.head = inst'.head → inst.session = inst'.session → i = j
  live {id h} : b.heads.get? id = some h →
    h.live = h.instances.countP fun i => (b.instances.get? i).any (!·.verdictReceived)
  state {i inst} : b.instances.get? i = some inst →
    inst.state = .pending ∨ inst.state = .verdictGiven
  held {id h} : b.heads.get? id = some h → (h.instances ≠ [] ↔ 1 ≤ h.live)
  verdict {id h} : b.heads.get? id = some h → h.verdict ≠ none → h.instances ≠ []

theorem Coherent.arena {b : Broker ω} (hb : b.Coherent) (hu : b.Unstuck []) : b.Arena where
  pending {s token i} := by
    rw [← hb.awaited, awaited?, Option.bind_eq_some_iff]
  headed := hb.listed
  member hh hi := (hb.tallies hh).member hi
  nodup hh := (hb.tallies hh).nodup
  single := hb.instance_unique
  live hh := (hb.tallies hh).live
  state {i inst} hi := by
    rw [Instance.state, hb.unreplied hi]
    cases inst.verdictReceived
    · exact .inl rfl
    · exact .inr rfl
  held {id h} hh := by
    constructor
    · -- Without a live instance the head would have been resolved before the operation ended.
      intro hne
      by_contra hlive
      rcases hu hh (by omega) with hid | ⟨hempty, -⟩
      · cases hid
      · exact hne hempty
    · rintro hlive hempty
      have hcount := (hb.tallies hh).live
      rw [hempty, List.countP_nil] at hcount
      omega
  verdict {id h} hh hverdict hempty := by
    have hcount := (hb.tallies hh).live
    rw [hempty, List.countP_nil] at hcount
    rcases hu hh hcount with hid | ⟨-, hnone⟩
    · cases hid
    · exact hverdict hnone

theorem Unstuck.weaken {b : Broker ω} (hu : b.Unstuck []) (ready : List HeadId) : b.Unstuck ready :=
  fun hh hlive => .inr ((hu hh hlive).resolve_left List.not_mem_nil)

end Broker

namespace Exchange

variable {ω σ : Type} {t : Transport σ} {x y : Exchange ω σ}

theorem Offer.unstuck {id : HeadId} (ho : Offer t id x y) (hu : x.broker.Unstuck []) :
    y.broker.Unstuck [] := by
  cases ho with
  | sent => exact hu
  | queued hs hh hkind hfree =>
    intro id' h' hh' hlive
    rw [withBroker, Broker.heads_addInstance hh] at hh'
    split at hh'
    · cases hh'
      exact absurd hlive (Nat.succ_ne_zero _)
    · exact hu hh' hlive
  | lost => exact hu

theorem Effect.unstuck {op : Operation ω} {r : Response} {ready : List HeadId}
    (he : Effect t x op r y ready) (hb : x.broker.Coherent) (hu : x.broker.Unstuck []) :
    y.broker.Unstuck ready := by
  cases he with
  | refused => exact hu
  | opened => exact hu
  | registered => exact hu
  | created waiter hm =>
    intro id h hh hlive
    simp only [withBroker, Table.get?_insert] at hh
    split at hh
    · cases hh
      exact .inr ⟨rfl, rfl⟩
    · exact hu hh hlive
  | waiterSet waiter hh =>
    intro id h' hh' hlive
    rw [show (x.withBroker (x.broker.modifyHead _ _)).broker.heads.get? id = _ from
      Table.get?_modify_of_get? hh _ id] at hh'
    split at hh'
    · cases hh'
      have hempty := (hu hh hlive).resolve_left List.not_mem_nil
      exact .inr hempty
    · exact hu hh' hlive
  | abandoned hh hempty =>
    intro id h' hh' hlive
    simp only [withBroker, Table.get?_erase] at hh'
    split at hh'
    · cases hh'
    · exact hu hh' hlive
  | offered r hop hy =>
    induction hy with
    | refl => exact hu
    | tail _ hoffer ih => exact hoffer.unstuck ih
  | duplicate => exact hu
  | @answered s token sess i inst h result ready verdict delegate hs hpending hi hh hresult =>
    intro id h' hh' hlive
    rw [withBroker, Broker.heads_recordAnswer hh] at hh'
    split at hh'
    · subst id
      cases hh'
      -- A final answer makes the head ready, a delegated one leaves somebody to answer.
      rcases hresult with ⟨-, rfl⟩ | ⟨-, -, hpos⟩
      · exact .inl (List.mem_singleton_self _)
      · exact absurd hlive (Nat.pos_iff_ne_zero.mp hpos)
    · exact hu.weaken _ hh' hlive
  | absent => exact hu
  | broadcast => exact hu.weaken _
  | @tornDown s sess hs =>
    intro id h' hh' hlive
    have hc := (closing_spec hb hs).1
    rcases hc.head_cases hb hh' with ⟨h, hh, ⟨rfl, -⟩ | ⟨i, inst, -, hi, hsession, hhead, -⟩⟩
    · exact hu.weaken _ hh hlive
    · exact .inl (hc.ready.mpr ⟨⟨i, inst, hi, hsession, hhead⟩, h', hh', hlive⟩)

theorem Broadcast.unstuck {id : HeadId} {rest : List HeadId} {h : Head ω} {new : List Send}
    (hx : Broadcast id h x y new) (hu : x.broker.Unstuck (id :: rest)) :
    y.broker.Unstuck rest := by
  intro id' h' hh' hlive
  rw [hx.heads, Table.get?_erase] at hh'
  split at hh'
  · cases hh'
  · rename_i hne
    rcases hu hh' hlive with hid | hempty
    · exact .inl ((List.mem_cons.mp hid).resolve_left hne)
    · exact .inr hempty

theorem unstuck_perform (hb : x.broker.Coherent) (hu : x.broker.Unstuck []) (op : Operation ω) :
    (x.perform t op).2.broker.Unstuck [] := by
  obtain ⟨y, ready, he, hy⟩ := performs (t := t) hb op
  rw [hy]
  exact resolveAll_induction (P := fun ready x => x.broker.Unstuck ready) t (he.coherent hb)
    (he.ready hb) (he.unstuck hb hu) fun _ _ hx hu => hx.unstuck hu

/-- Whatever is asked of a new broker, in whatever order, and whichever sends are refused. -/
theorem arena_run (t : Transport σ) (capacity : Nat) (transport : σ) (ops : List (Operation ω)) :
    (run t (start (.new capacity) transport) ops).2.broker.Arena := by
  suffices h : (run t (start (.new capacity) transport) ops).2.broker.Coherent ∧
      (run t (start (.new capacity) transport) ops).2.broker.Unstuck [] from h.1.arena h.2
  refine run_induction (I := fun _ x => x.broker.Coherent ∧ x.broker.Unstuck [])
    ⟨Broker.coherent_new capacity, fun hh => by cases hh⟩ (fun op hI => ?_) ops
  exact ⟨coherent_perform hI.1 op, unstuck_perform hI.1 hI.2 op⟩

end Exchange

end Arbiter
