import Arbiter.Proofs.Broker.Arena
import Arbiter.Proofs.Broker.Resolutions
import Arbiter.Proofs.Broker.Testimony

/-!
The end of a session, in any state a run can reach. The heads that waited for this session alone are
resolved, the others lose its instance and nothing else; the other sessions settle what was
resolved.
-/

namespace Arbiter

def Head.without {ω : Type} (h : Head ω) (t : Table InstanceId Instance) (s : SessionId) :
    Head ω :=
  let instances := h.instances.filter (!t.belongs s ·)
  { h with instances, live := instances.countP t.unanswered }

namespace Broker

variable {ω : Type} {b : Broker ω} {s : SessionId} {id : HeadId} {h : Head ω} {i : InstanceId}
  {inst : Instance}

/-- Of the instances of the head that are still pending the session has the only one. -/
def WaitsOnlyFor (b : Broker ω) (s : SessionId) (id : HeadId) : Prop :=
  ∃ i inst, b.Holds s id i inst ∧ inst.state = .pending ∧ ∀ j inst',
    b.instances.get? j = some inst' → inst'.head = id → inst'.state = .pending → j = i

namespace Coherent

theorem pending_iff (hb : b.Coherent) (hi : b.instances.get? i = some inst) :
    inst.state = .pending ↔ b.instances.unanswered i = true := by
  rw [Table.unanswered_eq hi, Instance.state, hb.unreplied hi]
  cases inst.verdictReceived <;> simp

theorem mem_instances (hb : b.Coherent) (hh : b.heads.get? id = some h)
    (hi : b.instances.get? i = some inst) (hhead : inst.head = id) : i ∈ h.instances :=
  (Table.mem_rows.mp (hb.mem_of_holds hh ⟨hi, rfl, hhead⟩)).1

theorem without_eq_self (hb : b.Coherent) (hh : b.heads.get? id = some h)
    (hnone : ¬∃ i inst, b.Holds s id i inst) : h.without b.instances s = h := by
  have hall : h.instances.filter (!b.instances.belongs s ·) = h.instances := by
    refine List.filter_eq_self.mpr fun i hmem => ?_
    obtain ⟨inst, hget, hhead⟩ := (hb.tallies hh).member hmem
    rw [Table.belongs_eq hget, Bool.not_eq_true', decide_eq_false_iff_not]
    exact fun hsession => hnone ⟨i, inst, hget, hsession, hhead⟩
  rw [Head.without, hall, ← (hb.tallies hh).live]

theorem size_pending (hb : b.Coherent) {sess : Session} (hs : b.sessions.get? s = some sess) :
    sess.pending.size = b.instances.entries.countP (·.2.session = s) := by
  have hfst := Exchange.map_fst_rows_pending hb hs
  have hnodup : (b.instances.rows sess.pending.values).Nodup :=
    .of_map Prod.fst (hfst.symm ▸ Exchange.nodup_pending hb hs)
  have hstored : (b.instances.entries.filter (·.2.session = s)).Nodup :=
    (List.Nodup.of_map _ b.instances.nodup).filter _
  have hperm : (b.instances.rows sess.pending.values).Perm
      (b.instances.entries.filter (·.2.session = s)) := by
    refine (List.perm_ext_iff_of_nodup hnodup hstored).mpr fun p => ?_
    rw [Exchange.mem_rows_pending hb hs, List.mem_filter, Table.get?_eq_some, decide_eq_true_eq]
  have hlength := congrArg List.length hfst
  rw [List.length_map, hperm.length_eq, ← List.countP_eq_length_filter] at hlength
  rw [hlength, Table.values, List.length_map, Table.size]

end Coherent

theorem WaitsOnlyFor.rows_eq_nil (hw : b.WaitsOnlyFor s id) (hb : b.Coherent)
    (ha : b.Attested []) (hh : b.heads.get? id = some h) (hdecider : h.decider = none) :
    (b.instances.rows h.instances).filter (·.2.session ≠ s) = [] := by
  obtain ⟨i, inst, ⟨hi, hsession, -⟩, -, honly⟩ := hw
  refine List.filter_eq_nil_iff.mpr fun p hp => ?_
  have howed := Exchange.Owed.of_row hb hh hp
  have hpending : p.2.state = .pending := by
    rw [hb.pending_iff howed.present, Table.unanswered_eq howed.present, Bool.not_eq_true']
    refine Bool.eq_false_iff.mpr fun hgave => ?_
    exact ha.answered howed.present hgave (howed.head ▸ hh) hdecider
  obtain rfl := honly p.1 p.2 howed.present howed.head hpending
  obtain rfl : inst = p.2 := Option.some.inj (hi.symm.trans howed.present)
  simp [hsession]

end Broker

namespace Exchange

variable {ω σ : Type}

namespace Closed

variable {b b' : Broker ω} {s s' : SessionId} {ready : List HeadId} {id : HeadId} {h : Head ω}

theorem head_without (hc : Closed s b b' ready) (hb : b.Coherent)
    (hh : b.heads.get? id = some h) : ∃ verdict : Option Verdict,
      b'.heads.get? id = some { h.without b.instances s with verdict } ∧
        verdict.getD .noDecision = h.outcome ∧ (id ∉ ready → verdict = h.verdict) := by
  have houtcome := hc.account hb id
  by_cases hheld : ∃ i inst, b.Holds s id i inst
  · obtain ⟨i, inst, hi⟩ := hheld
    have hget := Broker.head_closed hc hh hi
    have hmem := hb.mem_instances hh hi.1 hi.2.2
    rw [hget, hh] at houtcome
    refine ⟨(withdrawInstance h i inst.verdictReceived).verdict, ?_,
      congrArg (·.2.2.2) (Option.some.inj houtcome), fun hnot => ?_⟩
    · have hlive : (withdrawInstance h i inst.verdictReceived).live =
          (h.instances.erase i).countP b.instances.unanswered := by
        rw [((hb.tallies hh).withdraw hmem hi.1).live, withdrawInstance_instances]
        refine List.countP_congr fun j hj => ?_
        rw [(hb.tallies hh).nodup.mem_erase_iff] at hj
        simp [Table.unanswered_erase, hj.1]
      rw [hget, Head.without, hb.filter_belongs_eq_erase hh hi, ← hlive]
      unfold withdrawInstance
      split <;> rfl
    · refine withdrawInstance_verdict fun hlive => hnot ?_
      exact hc.ready.mpr ⟨⟨i, inst, hi⟩, _, hget, hlive⟩
  · have hget : b'.heads.get? id = some h := by
      rw [hc.untouched fun i inst hi hsession hhead => hheld ⟨i, inst, hi, hsession, hhead⟩, hh]
    exact ⟨h.verdict, by rw [hget, hb.without_eq_self hh hheld], rfl, fun _ => rfl⟩

theorem head_absent (hc : Closed s b b' ready) (hb : b.Coherent) (hh : b.heads.get? id = none) :
    b'.heads.get? id = none := by
  have hsame := hc.account hb id
  rwa [hh, Option.map_none, Option.map_eq_none_iff] at hsame

theorem head_of_not_ready (hc : Closed s b b' ready) (hb : b.Coherent) (hnot : id ∉ ready) :
    b'.heads.get? id = (b.heads.get? id).map (·.without b.instances s) := by
  cases hh : b.heads.get? id with
  | none => exact hc.head_absent hb hh
  | some h =>
    obtain ⟨verdict, hh', -, hverdict⟩ := hc.head_without hb hh
    rw [hh', hverdict hnot, Option.map_some]
    rfl

theorem live_eq_zero (hc : Closed s b b' ready) (hb : b.Coherent)
    (hh : b.heads.get? id = some h) : (∃ h', b'.heads.get? id = some h' ∧ h'.live = 0) ↔
      ∀ j ∈ h.instances, b.instances.unanswered j = true → b.instances.belongs s j = true := by
  obtain ⟨verdict, hh', -⟩ := hc.head_without hb hh
  simp only [hh', Option.some.injEq, exists_eq_left', Head.without, List.countP_eq_zero,
    List.mem_filter, Bool.not_eq_true', and_imp]
  refine forall₂_congr fun j _ => ?_
  cases b.instances.unanswered j <;> cases b.instances.belongs s j <;> simp

theorem mem_ready (hc : Closed s b b' ready) (hb : b.Coherent)
    (hlive : ∀ {id h}, b.heads.get? id = some h → h.instances ≠ [] → 1 ≤ h.live) :
    id ∈ ready ↔ b.WaitsOnlyFor s id := by
  rw [hc.ready]
  constructor
  · rintro ⟨⟨i, inst, hi, hsession, rfl⟩, hzero⟩
    obtain ⟨h, hh, -, -, hmem⟩ := hb.listed hi
    have hown (j inst') (hj : b.instances.get? j = some inst') (hhead : inst'.head = inst.head)
        (hpending : inst'.state = .pending) : j = i := by
      have hbelongs := (hc.live_eq_zero hb hh).mp hzero j (hb.mem_instances hh hj hhead)
        ((hb.pending_iff hj).mp hpending)
      rw [Table.belongs_eq hj, decide_eq_true_eq] at hbelongs
      exact (hb.holds_unique ⟨hj, hbelongs, hhead⟩ ⟨hi, hsession, rfl⟩).1
    -- The head is not stuck, so one of its instances is pending: it is the session's.
    have hpos : 0 < h.instances.countP b.instances.unanswered :=
      (hb.tallies hh).live ▸ hlive hh (List.ne_nil_of_mem hmem)
    obtain ⟨j, hj, hunanswered⟩ := List.countP_pos_iff.mp hpos
    obtain ⟨inst', hget, hhead⟩ := (hb.tallies hh).member hj
    have hpending := (hb.pending_iff hget).mpr hunanswered
    obtain rfl := hown j inst' hget hhead hpending
    obtain rfl : inst = inst' := Option.some.inj (hi.symm.trans hget)
    exact ⟨j, inst, ⟨hi, hsession, rfl⟩, hpending, hown⟩
  · rintro ⟨i, inst, ⟨hi, hsession, rfl⟩, -, honly⟩
    obtain ⟨h, hh, -⟩ := hb.listed hi
    refine ⟨⟨i, inst, hi, hsession, rfl⟩, (hc.live_eq_zero hb hh).mpr fun j hj hunanswered => ?_⟩
    obtain ⟨inst', hget, hhead⟩ := (hb.tallies hh).member hj
    obtain rfl := honly j inst' hget hhead ((hb.pending_iff hget).mpr hunanswered)
    rw [Table.belongs_eq hi, hsession, decide_eq_true rfl]

theorem belongs (hc : Closed s b b' ready) (hne : s' ≠ s) (i : InstanceId) :
    b'.instances.belongs s' i = b.instances.belongs s' i := by
  rw [Table.belongs, Table.belongs, hc.instances]
  cases b.instances.get? i with
  | none => rfl
  | some inst =>
    rw [Option.filter_some]
    by_cases hsession : inst.session = s <;> simp [hsession, hne.symm]

theorem tokenFor? (hc : Closed s b b' ready) (hb : b.Coherent) (hne : s' ≠ s) (id : HeadId) :
    b'.tokenFor? s' id = b.tokenFor? s' id := by
  cases hh : b.heads.get? id with
  | none =>
    rw [Broker.tokenFor?, Broker.tokenFor?, hh, hc.head_absent hb hh]
    rfl
  | some h =>
    obtain ⟨verdict, hh', -⟩ := hc.head_without hb hh
    have hany : (h.without b.instances s).instances.any (b'.instances.belongs s') =
        h.instances.any (b.instances.belongs s') := by
      rw [Head.without, List.any_filter, funext (hc.belongs hne), Bool.eq_iff_iff]
      simp only [List.any_eq_true]
      refine exists_congr fun i => and_congr_right fun hi => ?_
      obtain ⟨inst, hget, -⟩ := (hb.tallies hh).member hi
      rw [Table.belongs_eq hget, Table.belongs_eq hget]
      by_cases hsession : inst.session = s' <;> simp [hsession, hne]
    rw [Broker.tokenFor?, Broker.tokenFor?, hh, hh', Option.bind_some, Option.bind_some, hany]
    rfl

theorem completion? (hc : Closed s b b' ready) (hb : b.Coherent) (sends : List Send)
    (id : HeadId) : b'.completion? sends id = b.completion? sends id := by
  cases hh : b.heads.get? id with
  | none => rw [Broker.completion?, Broker.completion?, hh, hc.head_absent hb hh]
  | some h =>
    have hsame := hc.account hb id
    obtain ⟨h', hh', -⟩ := hc.head_without hb hh
    rw [hh, hh', Option.map_some, Option.map_some, Option.some.injEq] at hsame
    simp only [Head.account, Prod.mk.injEq] at hsame
    obtain ⟨hmessage, hwaiter, hdecider, houtcome⟩ := hsame
    rw [Broker.completion?, Broker.completion?, hh, hh', Option.bind_some, Option.bind_some,
      hmessage, hwaiter, hdecider, houtcome]

theorem told (hc : Closed s b b' ready) (hb : b.Coherent) (hh : b.heads.get? id = some h)
    {h' : Head ω} (hh' : b'.heads.get? id = some h') {sends : List Send}
    (htold : List.Forall₂ (Tells b' h') (b'.instances.rows h'.instances) sends) :
    List.Forall₂ (Tells b h) ((b.instances.rows h.instances).filter (·.2.session ≠ s)) sends := by
  obtain ⟨verdict, hget, houtcome, -⟩ := hc.head_without hb hh
  obtain rfl := Option.some.inj (hh'.symm.trans hget)
  have hrows : b'.instances.rows (h.without b.instances s).instances =
      (b.instances.rows h.instances).filter (·.2.session ≠ s) := Broker.rows_closed hc h.instances
  change List.Forall₂ _ (b'.instances.rows (h.without b.instances s).instances) _ at htold
  rw [hrows] at htold
  refine htold.imp fun p send ht => ⟨ht.purpose, ?_, ?_⟩
  · obtain ⟨sess, hs, hchannel⟩ := ht.channel
    rw [hc.sessions, Table.get?_erase] at hs
    split at hs
    · cases hs
    · exact ⟨sess, hs, hchannel⟩
  · have hmessage := ht.message
    rwa [Head.outcome, houtcome] at hmessage

end Closed

/-- From `x` to `y` the session ended: the heads in `ready` were resolved and `new` was sent. -/
structure Departure (past : List (Step ω σ)) (s : SessionId) (x y : Exchange ω σ)
    (ready : List HeadId) (new : List Send) : Prop where
  nodup : ready.Nodup
  /-- They are the heads that waited for this session alone. -/
  sole {id} : id ∈ ready ↔ x.broker.WaitsOnlyFor s id
  heads (id) : y.broker.heads.get? id = if id ∈ ready then none else
    (x.broker.heads.get? id).map (·.without x.broker.instances s)
  instances (i) : y.broker.instances.get? i =
    (x.broker.instances.get? i).filter fun inst => inst.session ≠ s ∧ inst.head ∉ ready
  vacated {i inst} : y.broker.instances.get? i = some inst → inst.session ≠ s
  sessions (s') : y.broker.sessions.get? s' = if s' = s then none else
    (x.broker.sessions.get? s').map
      (·.relieve (ready.filterMap (x.broker.tokenFor? s')) (refused s' new))
  nextId : y.broker.nextId = x.broker.nextId
  settledCapacity : y.broker.settledCapacity = x.broker.settledCapacity
  recorded {id h} : x.broker.heads.get? id = some h →
    h.verdict = (answerFor past id).map Accepted.verdict
  resolved : y.resolved = x.resolved ++ ready
  once {id} : id ∈ ready → y.resolved.count id = 1
  completions : y.completions = x.completions ++ ready.filterMap (x.broker.completion? new)
  sends : y.sends = x.sends ++ new
  only {send} : send ∈ new → ∃ id ∈ ready, send.purpose.concludes id = true
  /-- Of such a head all instances but the session's are told, one result each. -/
  told {id h} : id ∈ ready → x.broker.heads.get? id = some h →
    List.Forall₂ (Tells x.broker h)
      ((x.broker.instances.rows h.instances).filter (·.2.session ≠ s))
      (new.filter (·.purpose.concludes id))
  /-- Of a head that nobody answered for nothing is sent. -/
  unanswered {id} : id ∈ ready → answerFor past id = none →
    ∀ send ∈ new, send.purpose.concludes id = false

variable {t : Transport σ} {past : List (Step ω σ)} {x : Exchange ω σ} {s : SessionId}
  {sess : Session}

theorem departure_of_open (hb : x.broker.Coherent) (ha : x.broker.Arena)
    (hattested : x.broker.Attested []) (hd : Docket past x)
    (hs : x.broker.sessions.get? s = some sess) :
    ∃ ready new y, x.teardown t s =
        (.ok ⟨sess.registrations.length, sess.pending.size, ready.length⟩, y) ∧
      Departure past s x y ready new := by
  let closed := closing x.broker s sess
  have hc : Closed s x.broker closed.broker closed.ready := (closing_spec hb hs).1
  have hready : Ready closed.broker closed.ready := closing_ready hb hs
  obtain ⟨new, hr⟩ := resolveAll_spec t (x := x.withBroker closed.broker) (hc.coherent hb) hready
  have hsole {id} : id ∈ closed.ready ↔ x.broker.WaitsOnlyFor s id :=
    hc.mem_ready hb fun hh hne => (ha.held hh).mp hne
  have hrecorded {id} (hid : id ∈ closed.ready) : ∃ h, x.broker.heads.get? id = some h ∧
      Recorded past id h ∧ id ∉ x.resolved := by
    obtain ⟨i, inst, ⟨hi, -, rfl⟩, -⟩ := hsole.mp hid
    obtain ⟨h, hh, -⟩ := hb.listed hi
    obtain ⟨hrecorded, -, hfresh⟩ := (hd.standing inst.head).recorded hh
    exact ⟨h, hh, hrecorded, hfresh⟩
  have htold {id h} (hid : id ∈ closed.ready) (hh : x.broker.heads.get? id = some h) :
      List.Forall₂ (Tells x.broker h)
        ((x.broker.instances.rows h.instances).filter (·.2.session ≠ s))
        (new.filter (·.purpose.concludes id)) := by
    obtain ⟨verdict, hh', -⟩ := hc.head_without hb hh
    exact hc.told hb hh hh' (hr.told hid hh')
  have hinstances (i) : ((x.withBroker closed.broker).resolveAll t
      closed.ready).broker.instances.get? i = (x.broker.instances.get? i).filter fun inst =>
        inst.session ≠ s ∧ inst.head ∉ closed.ready := by
    rw [hr.instances, withBroker, hc.instances, Option.filter_filter]
    refine congrArg (Option.filter · _) (funext fun inst => ?_)
    simp
  refine ⟨closed.ready, new, _, teardown_of_open hb hs, ?_⟩
  exact {
    nodup := hc.nodup
    sole := hsole
    heads := fun id => by
      rw [hr.heads]
      split
      · rfl
      · exact hc.head_of_not_ready hb ‹_›
    instances := hinstances
    vacated := fun {i inst} hi => by
      rw [hinstances, Option.filter_eq_some_iff, decide_eq_true_eq] at hi
      exact hi.2.1
    sessions := fun s' => by
      rw [hr.sessions, withBroker, hc.sessions, Table.get?_erase]
      split
      · rfl
      · rw [List.filterMap_congr fun id _ => hc.tokenFor? hb ‹_› id]
    nextId := hr.nextId.trans hc.nextId
    settledCapacity := hr.settledCapacity.trans hc.settledCapacity
    recorded := fun {id h} hh => verdict_eq_answer hattested hh ((hd.standing id).recorded hh).1
    resolved := hr.resolved
    once := fun {id} hid => by
      obtain ⟨h, -, -, hfresh⟩ := hrecorded hid
      rw [hr.resolved, withBroker, List.count_append, List.count_eq_zero_of_not_mem hfresh,
        Nat.zero_add, hc.nodup.count, if_pos hid]
    completions := by
      rw [hr.completions]
      exact congrArg (x.completions ++ ·)
        (List.filterMap_congr fun id _ => hc.completion? hb new id)
    sends := hr.sends
    only := hr.only
    told := htold
    unanswered := fun {id} hid hnobody send hsend => by
      obtain ⟨h, hh, hrecorded, -⟩ := hrecorded hid
      have hdecider : h.decider = none := by
        rw [← hrecorded.decider, hnobody, Option.map_none]
      have hnothing := htold hid hh
      rw [(hsole.mp hid).rows_eq_nil hb hattested hh hdecider] at hnothing
      refine Bool.eq_false_iff.mpr fun hconcludes => ?_
      exact List.filter_eq_nil_iff.mp (List.forall₂_nil_left_iff.mp hnothing) send hsend
        hconcludes }

/-- Whatever was asked of the broker before, and whichever sends are refused now. -/
theorem departure_run (t : Transport σ) (capacity : Nat) (transport : σ) (ops : List (Operation ω))
    (hs : (run t (start (.new capacity) transport) ops).2.broker.sessions.get? s = some sess) :
    let x := (run t (start (.new capacity) transport) ops).2
    ∃ ready new y, x.teardown t s =
        (.ok ⟨sess.registrations.length, sess.pending.size, ready.length⟩, y) ∧
      sess.pending.size = x.broker.instances.entries.countP (·.2.session = s) ∧
      Departure (history t (start (.new capacity) transport) ops) s x y ready new := by
  intro x
  have hb : x.broker.Coherent := coherent_run t capacity transport ops
  obtain ⟨ready, new, y, hreport, hdeparture⟩ := departure_of_open (t := t) hb
    (arena_run t capacity transport ops) (attested_run t capacity transport ops)
    (docket_run t capacity transport ops) hs
  exact ⟨ready, new, y, hreport, hb.size_pending hs, hdeparture⟩

/-- Of three gates the session is asked about one alone, is the last to answer for the second and
has left the third to the other session, which is lost when it cannot be told of the second. -/
theorem departure_run_three_gates :
    let t : Transport Nat := ⟨fun n _ _ => (if n < 5 then .ok () else .error .closed, n + 1)⟩
    let ask (token : UInt8) : Message := .ofBytes ([0, 0, 0, 64, 0, 0, 32, 3, 0, 0, 0, 0, 0, 0, 0,
      token, 0, 0, 0, 0, 0, 0, 0, 5] ++ List.replicate 40 0)
    let ops : List (Operation String) :=
      [.openSession 5 ⟨1⟩, .openSession 0 ⟨2⟩, .register ⟨1⟩ ⟨5, 0, 0⟩,
        .createHead (ask 7) (some "alone"), .dispatchAll ⟨3⟩, .register ⟨2⟩ ⟨5, 0, 0⟩,
        .createHead (ask 8) (some "last"), .dispatchAll ⟨5⟩, .answer ⟨2⟩ 8 .allow true,
        .createHead (ask 9) (some "left"), .dispatchAll ⟨8⟩, .answer ⟨1⟩ 9 .allow true]
    let x := (run t (start (.new 4) 0) ops).2
    (x.teardown t ⟨1⟩).1.toOption = some ⟨1, 3, 2⟩ ∧
      (x.teardown t ⟨1⟩).2.resolved = [⟨3⟩, ⟨5⟩] ∧
      (x.teardown t ⟨1⟩).2.broker.lostSessions = [⟨2⟩] ∧
      ∃ sess, x.broker.sessions.get? ⟨1⟩ = some sess ∧ ∃ ready new y, x.teardown t ⟨1⟩ =
          (.ok ⟨sess.registrations.length, sess.pending.size, ready.length⟩, y) ∧
        sess.pending.size = x.broker.instances.entries.countP (·.2.session = ⟨1⟩) ∧
        Departure (history t (start (.new 4) 0) ops) ⟨1⟩ x y ready new := by
  intro t ask ops x
  have hx : x = (run t (start (.new 4) 0) ops).2 := rfl
  -- As a variable the state is not evaluated when it is compared.
  clear_value x
  rw [hx]
  obtain ⟨sess, hs⟩ : ∃ sess,
      (run t (start (.new 4) 0) ops).2.broker.sessions.get? ⟨1⟩ = some sess :=
    Option.isSome_iff_exists.mp (by decide +kernel)
  exact ⟨by decide +kernel, by decide +kernel, by decide +kernel, sess, hs,
    departure_run t 4 0 ops hs⟩

end Exchange

end Arbiter
