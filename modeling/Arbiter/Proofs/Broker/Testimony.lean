import Arbiter.Proofs.Broker.Docket

/-!
Where a verdict comes from. A head has one as soon as an answer for it counted, and from then on it
is that of the last such answer; an instance that gave its verdict has a head with one. Only a head
that lost its last instance unanswered has a verdict of nobody, until it is resolved.
-/

namespace Arbiter

namespace Broker

variable {ω : Type}

structure Attested (ready : List HeadId) (b : Broker ω) : Prop where
  answered {i inst h} : b.instances.get? i = some inst → inst.verdictReceived = true →
    b.heads.get? inst.head = some h → h.decider ≠ none
  verdict {id h} : b.heads.get? id = some h → id ∉ ready → (h.verdict = none ↔ h.decider = none)

variable {b b' : Broker ω}

theorem attested_new (capacity : Nat) : (new capacity : Broker ω).Attested [] where
  answered hi := by cases hi
  verdict hh := by cases hh

theorem Attested.weaken (ha : b.Attested []) (ready : List HeadId) : b.Attested ready where
  answered := ha.answered
  verdict hh _ := ha.verdict hh List.not_mem_nil

theorem Attested.congr (ha : b.Attested []) (hb : b.Coherent)
    (hinstances : b'.instances = b.instances)
    (hheads : ∀ {id h'}, b'.heads.get? id = some h' →
      (h'.verdict = none ∧ h'.decider = none ∧ b.heads.get? id = none) ∨
        ∃ h, b.heads.get? id = some h ∧ h'.verdict = h.verdict ∧ h'.decider = h.decider) :
    b'.Attested [] where
  answered {i inst h'} hi hgave hh' := by
    rw [hinstances] at hi
    obtain ⟨h, hh, -⟩ := hb.listed hi
    rcases hheads hh' with ⟨-, -, hnone⟩ | ⟨h, hh, -, hdecider⟩
    · rw [hh] at hnone
      cases hnone
    · rw [hdecider]
      exact ha.answered hi hgave hh
  verdict {id h'} hh' _ := by
    rcases hheads hh' with ⟨hverdict, hdecider, -⟩ | ⟨h, hh, hverdict, hdecider⟩
    · exact iff_of_true hverdict hdecider
    · rw [hverdict, hdecider]
      exact ha.verdict hh List.not_mem_nil

theorem Attested.recordAnswer (ha : b.Attested []) {i : InstanceId} {inst : Instance} {h : Head ω}
    (hi : b.instances.get? i = some inst) (hh : b.heads.get? inst.head = some h)
    (verdict : Verdict) (uid : UInt32) : (b.recordAnswer i inst h verdict uid).Attested [] where
  answered {j inst' h'} hj hgave hh' := by
    rw [heads_recordAnswer hh] at hh'
    rw [instances_recordAnswer hi] at hj
    split at hh'
    · cases hh'
      exact Option.some_ne_none _
    · rename_i hother
      split at hj
      · cases hj
        exact absurd rfl hother
      · exact ha.answered hj hgave hh'
  verdict {id h'} hh' _ := by
    rw [heads_recordAnswer hh] at hh'
    split at hh'
    · cases hh'
      exact iff_of_false (Option.some_ne_none _) (Option.some_ne_none _)
    · exact ha.verdict hh' List.not_mem_nil

end Broker

namespace Exchange

variable {ω σ : Type} {t : Transport σ} {x y : Exchange ω σ}

theorem Offer.attested {id : HeadId} (ho : Offer t id x y) (ha : x.broker.Attested []) :
    y.broker.Attested [] := by
  cases ho with
  | sent => exact ha
  | lost => exact ⟨ha.answered, ha.verdict⟩
  | @queued s sess h hs hh hkind hfree =>
    have hcases {id' h'} (hh' : (x.broker.addInstance s id h.token).heads.get? id' = some h') :
        ∃ h, x.broker.heads.get? id' = some h ∧ h'.verdict = h.verdict ∧
          h'.decider = h.decider := by
      rw [Broker.heads_addInstance hh] at hh'
      split at hh'
      · subst id'
        cases hh'
        exact ⟨h, hh, rfl, rfl⟩
      · exact ⟨h', hh', rfl, rfl⟩
    refine ⟨fun {i inst h'} hi hgave hh' => ?_, fun {id' h'} hh' _ => ?_⟩
    · rw [withBroker, Broker.instances_addInstance] at hi
      obtain ⟨h, hh, -, hdecider⟩ := hcases hh'
      split at hi
      · cases hi
        cases hgave
      · rw [hdecider]
        exact ha.answered hi hgave hh
    · obtain ⟨h, hh, hverdict, hdecider⟩ := hcases hh'
      rw [hverdict, hdecider]
      exact ha.verdict hh List.not_mem_nil

theorem Closed.attested {s : SessionId} {b b' : Broker ω} {ready : List HeadId}
    (hc : Closed s b b' ready) (hb : b.Coherent) (ha : b.Attested []) : b'.Attested ready where
  answered {i inst h'} hi hgave hh' := by
    obtain ⟨hi, -⟩ := hc.instance_iff.mp hi
    obtain ⟨h, hh, ⟨rfl, -⟩ | ⟨j, inst', -, -, -, -, rfl⟩⟩ := hc.head_cases hb hh'
    · exact ha.answered hi hgave hh
    · rw [withdrawInstance_decider]
      exact ha.answered hi hgave hh
  verdict {id h'} hh' hnot := by
    obtain ⟨h, hh, ⟨rfl, -⟩ | ⟨j, inst', -, hj, hsession, hhead, rfl⟩⟩ := hc.head_cases hb hh'
    · exact ha.verdict hh List.not_mem_nil
    · -- A verdict of nobody is set with the last live instance, and then the head is ready.
      have hlive : (withdrawInstance h j inst'.verdictReceived).live ≠ 0 := fun hlive =>
        hnot (hc.ready.mpr ⟨⟨j, inst', hj, hsession, hhead⟩, _, hh', hlive⟩)
      rw [withdrawInstance_decider, withdrawInstance_verdict hlive]
      exact ha.verdict hh List.not_mem_nil

theorem Effect.attested {op : Operation ω} {r : Response} {ready : List HeadId}
    (he : Effect t x op r y ready) (hb : x.broker.Coherent) (ha : x.broker.Attested []) :
    y.broker.Attested ready := by
  cases he with
  | refused => exact ha
  | opened => exact ⟨ha.answered, ha.verdict⟩
  | registered => exact ⟨ha.answered, ha.verdict⟩
  | created waiter hm =>
    refine ha.congr hb rfl fun {id h'} hh' => ?_
    simp only [withBroker, Table.get?_insert] at hh'
    split at hh'
    · cases hh'
      exact .inl ⟨rfl, rfl, hb.head_fresh (by simp [*])⟩
    · exact .inr ⟨h', hh', rfl, rfl⟩
  | waiterSet waiter hh =>
    refine ha.congr hb rfl fun {id h'} hh' => ?_
    rw [show (x.withBroker (x.broker.modifyHead _ _)).broker.heads.get? id = _ from
      Table.get?_modify_of_get? hh _ id] at hh'
    split at hh'
    · subst id
      cases hh'
      exact .inr ⟨_, hh, rfl, rfl⟩
    · exact .inr ⟨h', hh', rfl, rfl⟩
  | abandoned hh hempty =>
    refine ha.congr hb rfl fun {id h'} hh' => ?_
    simp only [withBroker, Table.get?_erase] at hh'
    split at hh'
    · cases hh'
    · exact .inr ⟨h', hh', rfl, rfl⟩
  | offered r hop hy =>
    induction hy with
    | refl => exact ha
    | tail _ hoffer ih => exact hoffer.attested ih
  | duplicate => exact ha
  | answered verdict _ hs _ hi hh hresult =>
    exact (ha.recordAnswer hi hh verdict _).weaken ready
  | absent => exact ha
  | broadcast => exact ha.weaken _
  | tornDown hs => exact (closing_spec hb hs).1.attested hb ha

theorem Broadcast.attested {id : HeadId} {rest : List HeadId} {h : Head ω} {new : List Send}
    (hx : Broadcast id h x y new) (ha : x.broker.Attested (id :: rest)) :
    y.broker.Attested rest := by
  have hkept {id' h'} (hh' : y.broker.heads.get? id' = some h') :
      id' ≠ id ∧ x.broker.heads.get? id' = some h' := by
    rw [hx.heads, Table.get?_erase] at hh'
    split at hh'
    · cases hh'
    · exact ⟨‹_›, hh'⟩
  refine ⟨fun {i inst h'} hi hgave hh' => ?_, fun {id' h'} hh' hnot => ?_⟩
  · rw [hx.instances] at hi
    split at hi
    · cases hi
    · exact ha.answered hi hgave (hkept hh').2
  · obtain ⟨hne, hh⟩ := hkept hh'
    exact ha.verdict hh fun hid => hnot ((List.mem_cons.mp hid).resolve_left hne)

theorem attested_perform (hb : x.broker.Coherent) (ha : x.broker.Attested []) (op : Operation ω) :
    (x.perform t op).2.broker.Attested [] := by
  obtain ⟨y, ready, he, hy⟩ := performs (t := t) hb op
  rw [hy]
  exact resolveAll_induction (P := fun ready x => x.broker.Attested ready) t (he.coherent hb)
    (he.ready hb) (he.attested hb ha) fun _ _ hx ha => hx.attested ha

theorem attested_run (t : Transport σ) (capacity : Nat) (transport : σ) (ops : List (Operation ω)) :
    (run t (start (.new capacity) transport) ops).2.broker.Attested [] := by
  refine (run_induction (I := fun _ x => x.broker.Coherent ∧ x.broker.Attested [])
    ⟨Broker.coherent_new capacity, Broker.attested_new capacity⟩ (fun op hI => ?_) ops).2
  exact ⟨coherent_perform hI.1 op, attested_perform hI.1 hI.2 op⟩

theorem verdict_eq_answer {past : List (Step ω σ)} {b : Broker ω} (ha : b.Attested [])
    {id : HeadId} {h : Head ω} (hh : b.heads.get? id = some h) (hr : Recorded past id h) :
    h.verdict = (answerFor past id).map Accepted.verdict := by
  have hattested := ha.verdict hh List.not_mem_nil
  have hdecider := hr.decider
  have houtcome := hr.outcome
  cases hanswer : answerFor past id with
  | none =>
    rw [hanswer, Option.map_none] at hdecider
    exact hattested.mpr hdecider.symm
  | some a =>
    rw [hanswer, Option.map_some] at hdecider
    rw [verdictOf, hanswer, Option.map_some, Option.getD_some] at houtcome
    cases hverdict : h.verdict with
    | none =>
      rw [hattested.mp hverdict] at hdecider
      cases hdecider
    | some v =>
      rw [Head.outcome, hverdict, Option.getD_some] at houtcome
      rw [Option.map_some, houtcome]

end Exchange

end Arbiter
