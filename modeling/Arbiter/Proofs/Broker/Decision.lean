import Arbiter.Proofs.Broker.Departure

/-!
What an answer comes to, in any state a run can reach. It is delegated exactly when it says so and
another session is still to answer; then it is recorded and nothing else happens. Every other answer
resolves the event with its verdict, whether or not its session had answered before.
-/

namespace Arbiter

namespace Broker

variable {ω : Type} {b : Broker ω} {i : InstanceId} {inst : Instance} {h : Head ω}

def OthersPending (b : Broker ω) (id : HeadId) (i : InstanceId) : Prop :=
  ∃ j inst, b.instances.get? j = some inst ∧ inst.head = id ∧ j ≠ i ∧ inst.state = .pending

def othersPending (b : Broker ω) (h : Head ω) (i : InstanceId) : Nat :=
  h.instances.countP fun j => b.instances.unanswered j && j != i

theorem Coherent.othersPending_pos (hb : b.Coherent) {id : HeadId} (hh : b.heads.get? id = some h)
    (i : InstanceId) : 0 < b.othersPending h i ↔ b.OthersPending id i := by
  simp only [othersPending, List.countP_pos_iff, Bool.and_eq_true, bne_iff_ne]
  constructor
  · rintro ⟨j, hmem, hunanswered, hne⟩
    obtain ⟨inst, hj, hhead⟩ := (hb.tallies hh).member hmem
    exact ⟨j, inst, hj, hhead, hne, (hb.pending_iff hj).mpr hunanswered⟩
  · rintro ⟨j, inst, hj, hhead, hne, hpending⟩
    exact ⟨j, hb.mem_instances hh hj hhead, (hb.pending_iff hj).mp hpending, hne⟩

theorem Coherent.live_recordVerdict (hb : b.Coherent) (hi : b.instances.get? i = some inst)
    (hh : b.heads.get? inst.head = some h) (verdict : Verdict) (decider : Decider) :
    (Exchange.recordVerdict h (!inst.verdictReceived) verdict decider).live =
      b.othersPending h i := by
  -- The counter falls with the first answer of an instance only, so it always counts the others.
  have htallies := (hb.tallies hh).record (hb.mem_instances hh hi rfl) hi verdict decider
  rw [htallies.live, Table.unanswered_modify]
  rfl

theorem tokenFor?_recordAnswer (hi : b.instances.get? i = some inst)
    (hh : b.heads.get? inst.head = some h) (verdict : Verdict) (uid : UInt32) (s : SessionId) :
    (b.recordAnswer i inst h verdict uid).tokenFor? s inst.head = b.tokenFor? s inst.head := by
  have hbelongs : (b.recordAnswer i inst h verdict uid).instances.belongs s =
      b.instances.belongs s := by
    funext j
    rw [Table.belongs, Table.belongs, instances_recordAnswer hi]
    split
    · subst j
      rw [hi]
      rfl
    · rfl
  rw [tokenFor?, tokenFor?, heads_recordAnswer hh, if_pos rfl, hh, hbelongs]
  rfl

end Broker

namespace Exchange

variable {ω σ : Type}

/-- From `x` to `y` the answer of an instance was recorded, and others are left to decide. -/
structure Delegated (i : InstanceId) (inst : Instance) (h : Head ω) (verdict : Verdict)
    (uid : UInt32) (x y : Exchange ω σ) : Prop where
  heads (id) : y.broker.heads.get? id = if id = inst.head then
    some { h with
      live := x.broker.othersPending h i
      verdict := some verdict
      decider := some ⟨i, uid⟩ } else x.broker.heads.get? id
  given : ∃ inst', y.broker.instances.get? i = some inst' ∧ inst'.state = .verdictGiven ∧
    inst'.token = inst.token ∧ inst'.session = inst.session ∧ inst'.head = inst.head
  instances {j} : j ≠ i → y.broker.instances.get? j = x.broker.instances.get? j
  sessions : y.broker.sessions = x.broker.sessions
  nextId : y.broker.nextId = x.broker.nextId
  settledCapacity : y.broker.settledCapacity = x.broker.settledCapacity
  transport : y.transport = x.transport
  sends : y.sends = x.sends
  resolved : y.resolved = x.resolved
  completions : y.completions = x.completions

/-- From `x` to `y` the answer of an instance resolved its head, and `new` was sent. -/
structure Decided (i : InstanceId) (inst : Instance) (h : Head ω) (verdict : Verdict)
    (uid : UInt32) (x y : Exchange ω σ) (new : List Send) : Prop where
  heads (id) : y.broker.heads.get? id =
    if id = inst.head then none else x.broker.heads.get? id
  instances (j) : y.broker.instances.get? j =
    (x.broker.instances.get? j).filter (·.head ≠ inst.head)
  released {j inst'} : x.broker.instances.get? j = some inst' → inst'.head = inst.head →
    y.broker.awaited? inst'.session inst.token = none
  sessions (s) : y.broker.sessions.get? s = (x.broker.sessions.get? s).map
    (·.relieve (x.broker.tokenFor? s inst.head).toList (refused s new))
  nextId : y.broker.nextId = x.broker.nextId
  settledCapacity : y.broker.settledCapacity = x.broker.settledCapacity
  completions : y.completions = x.completions ++ h.waiter.toList.map fun w =>
    ⟨w, inst.head, h.message, verdict, some uid, new.countP (·.result.isOk)⟩
  resolved : y.resolved = x.resolved ++ [inst.head]
  sends : y.sends = x.sends ++ new
  told : List.Forall₂ (Tells x.broker { h with verdict := some verdict, decider := some ⟨i, uid⟩ })
    (x.broker.instances.rows h.instances) new

/-- What an answer of a session comes to that has `i` pending under the token. -/
structure Judged (t : Transport σ) (x : Exchange ω σ) (s : SessionId) (sess : Session)
    (i : InstanceId) (inst : Instance) (h : Head ω) (verdict : Verdict) (delegate : Bool) :
    Prop where
  delegated_iff : (x.answer t s inst.token verdict delegate).1 = .ok .delegated ↔
    delegate = true ∧ x.broker.OthersPending inst.head i
  delegated : delegate = true ∧ x.broker.OthersPending inst.head i →
    Delegated i inst h verdict sess.uid x (x.answer t s inst.token verdict delegate).2
  decided : ¬(delegate = true ∧ x.broker.OthersPending inst.head i) →
    (x.answer t s inst.token verdict delegate).1 = .ok .decided ∧ ∃ new,
      Decided i inst h verdict sess.uid x (x.answer t s inst.token verdict delegate).2 new

variable {t : Transport σ} {x : Exchange ω σ} {s : SessionId} {sess : Session} {i : InstanceId}
  {inst : Instance} {h : Head ω}

theorem delegated_of_record (hb : x.broker.Coherent) (hi : x.broker.instances.get? i = some inst)
    (hh : x.broker.heads.get? inst.head = some h) (verdict : Verdict) (uid : UInt32) :
    Delegated i inst h verdict uid x
      (x.withBroker (x.broker.recordAnswer i inst h verdict uid)) where
  heads id := by
    rw [withBroker, Broker.heads_recordAnswer hh, ← hb.live_recordVerdict hi hh verdict ⟨i, uid⟩]
    rfl
  given := by
    refine ⟨inst.giveVerdict, (Broker.instances_recordAnswer hi ..).trans (if_pos rfl), ?_, rfl,
      rfl, rfl⟩
    rw [Instance.state, Instance.giveVerdict, hb.unreplied hi]
  instances hj := (Broker.instances_recordAnswer hi ..).trans (if_neg hj)
  sessions := rfl
  nextId := rfl
  settledCapacity := rfl
  transport := rfl
  sends := rfl
  resolved := rfl
  completions := rfl

theorem decided_of_broadcast (hb : x.broker.Coherent) (hi : x.broker.instances.get? i = some inst)
    (hh : x.broker.heads.get? inst.head = some h) (verdict : Verdict) (uid : UInt32) :
    ∃ new, Decided i inst h verdict uid x
      ((x.withBroker (x.broker.recordAnswer i inst h verdict uid)).broadcast t inst.head).2
      new := by
  let recorded := x.withBroker (x.broker.recordAnswer i inst h verdict uid)
  have hrecorded : recorded.broker.Coherent := hb.recordAnswer hi hh verdict uid
  have hhead : recorded.broker.heads.get? inst.head =
      some (recordVerdict h (!inst.verdictReceived) verdict ⟨i, uid⟩) :=
    (Broker.heads_recordAnswer hh ..).trans (if_pos rfl)
  have hinstance (j) : recorded.broker.instances.get? j =
      if j = i then some inst.giveVerdict else x.broker.instances.get? j :=
    Broker.instances_recordAnswer hi ..
  obtain ⟨new, -, hx⟩ := broadcast_spec t hrecorded hhead
  refine ⟨new, ?_⟩
  exact {
    heads := fun id => by
      rw [hx.heads, Table.get?_erase]
      split
      · rfl
      · exact (Broker.heads_recordAnswer hh ..).trans (if_neg ‹_›)
    instances := fun j => by
      rw [hx.instances_of_head hrecorded hhead, hinstance]
      split
      · subst j
        simp [hi, Option.filter_some, Instance.giveVerdict]
      · rfl
    released := fun {j inst'} hj hhead' => by
      obtain ⟨h', hh', htoken, -, hmem⟩ := hb.listed hj
      obtain rfl : h = h' := Option.some.inj (hh.symm.trans (hhead' ▸ hh'))
      obtain ⟨h', hh', htoken', -⟩ := hb.listed hi
      obtain rfl : h = h' := Option.some.inj (hh.symm.trans hh')
      have hawaited : recorded.broker.awaited? inst'.session inst.token = some j := by
        rw [← htoken', htoken]
        exact hb.awaited?_of_instance hj
      rw [hx.awaited? hrecorded hhead, hawaited, Option.filter_some, if_neg]
      exact fun hnot => of_decide_eq_true hnot hmem
    sessions := fun s => by
      have htoken : recorded.broker.tokenFor? s inst.head = x.broker.tokenFor? s inst.head :=
        Broker.tokenFor?_recordAnswer hi hh verdict uid s
      rw [hx.session hrecorded hhead, htoken]
      rfl
    nextId := hx.nextId
    settledCapacity := hx.settledCapacity
    completions := hx.completions
    resolved := hx.resolved
    sends := hx.sends
    told := by
      have htold := hx.told
      have hrows : recorded.broker.instances.rows h.instances = (x.broker.instances.rows
          h.instances).map fun p => if p.1 = i then (p.1, p.2.giveVerdict) else p :=
        Table.rows_modify ..
      change List.Forall₂ _ (recorded.broker.instances.rows h.instances) new at htold
      rw [hrows, List.forall₂_map_left_iff] at htold
      refine htold.imp fun p send ht => ?_
      by_cases hp : p.1 = i
      · rw [if_pos hp] at ht
        exact ⟨ht.purpose, ht.channel, ht.message⟩
      · rw [if_neg hp] at ht
        exact ⟨ht.purpose, ht.channel, ht.message⟩ }

theorem judged_of_pending (hb : x.broker.Coherent) (hs : x.broker.sessions.get? s = some sess)
    (hpending : sess.pending.get? inst.token = some i)
    (hi : x.broker.instances.get? i = some inst) (hh : x.broker.heads.get? inst.head = some h)
    (verdict : Verdict) (delegate : Bool) : Judged t x s sess i inst h verdict delegate := by
  have hanswer := answer_of_pending (t := t) hb hs hpending hi hh verdict delegate
  have hdelegate : (delegate && decide (0 < (recordVerdict h (!inst.verdictReceived) verdict
      ⟨i, sess.uid⟩).live)) = true ↔ delegate = true ∧ x.broker.OthersPending inst.head i := by
    rw [Bool.and_eq_true, decide_eq_true_eq, hb.live_recordVerdict hi hh, hb.othersPending_pos hh]
  by_cases hothers : delegate = true ∧ x.broker.OthersPending inst.head i
  · simp only [if_pos (hdelegate.mpr hothers)] at hanswer
    refine ⟨iff_of_true ?_ hothers, fun _ => ?_, fun hnot => absurd hothers hnot⟩
    · rw [hanswer]
    · rw [hanswer]
      exact delegated_of_record hb hi hh verdict sess.uid
  · simp only [if_neg (mt hdelegate.mp hothers)] at hanswer
    refine ⟨iff_of_false ?_ hothers, fun hyes => absurd hyes hothers, fun _ => ?_⟩
    · rw [hanswer]
      simp
    · rw [hanswer]
      exact ⟨rfl, decided_of_broadcast hb hi hh verdict sess.uid⟩

/-- Whatever was asked of the broker before, and whichever sends are refused. -/
theorem judged_run (t : Transport σ) (capacity : Nat) (transport : σ) (ops : List (Operation ω))
    {token : UInt64}
    (hs : (run t (start (.new capacity) transport) ops).2.broker.sessions.get? s = some sess)
    (hpending : sess.pending.get? token = some i) (verdict : Verdict) (delegate : Bool) :
    let x := (run t (start (.new capacity) transport) ops).2
    ∃ inst h, x.broker.Holds s inst.head i inst ∧ inst.token = token ∧
      x.broker.heads.get? inst.head = some h ∧ Judged t x s sess i inst h verdict delegate := by
  intro x
  have hb : x.broker.Coherent := coherent_run t capacity transport ops
  have hawaited : x.broker.awaited? s token = some i := by
    rw [Broker.awaited?, hs, Option.bind_some, hpending]
  obtain ⟨inst, hi, hsession, rfl⟩ := hb.awaited.mp hawaited
  obtain ⟨h, hh, -⟩ := hb.listed hi
  exact ⟨inst, h, ⟨hi, hsession, rfl⟩, rfl, hh,
    judged_of_pending hb hs hpending hi hh verdict delegate⟩

/-- The first session delegates a second time while the other is still to answer; were the other to
delegate too, nobody would be left. -/
theorem judged_run_again :
    let t : Transport Unit := ⟨fun _ _ _ => (.ok (), ())⟩
    let ask : Message := .ofBytes ([0, 0, 0, 64, 0, 0, 32, 3, 0, 0, 0, 0, 0, 0, 0, 7, 0, 0, 0, 0, 0,
      0, 0, 5] ++ List.replicate 40 0)
    let ops : List (Operation String) :=
      [.openSession 5 ⟨1⟩, .openSession 0 ⟨2⟩, .register ⟨1⟩ ⟨5, 0, 0⟩, .register ⟨2⟩ ⟨5, 0, 0⟩,
        .createHead ask (some "gate"), .dispatchAll ⟨3⟩, .answer ⟨1⟩ 7 .allow true]
    let x := (run t (start (.new 4) ()) ops).2
    (x.answer t ⟨1⟩ 7 .noDecision true).1.toOption = some .delegated ∧
      (x.answer t ⟨2⟩ 7 .noDecision true).1.toOption = some .decided ∧
      ∃ sess, x.broker.sessions.get? ⟨1⟩ = some sess ∧ sess.pending.get? 7 = some ⟨4⟩ ∧
        ∃ inst h, x.broker.Holds ⟨1⟩ inst.head ⟨4⟩ inst ∧ inst.token = 7 ∧
          x.broker.heads.get? inst.head = some h ∧
          Judged t x ⟨1⟩ sess ⟨4⟩ inst h .noDecision true := by
  intro t ask ops x
  have hx : x = (run t (start (.new 4) ()) ops).2 := rfl
  clear_value x
  rw [hx]
  obtain ⟨sess, hs, hpending⟩ : ∃ sess,
      (run t (start (.new 4) ()) ops).2.broker.sessions.get? ⟨1⟩ = some sess ∧
        sess.pending.get? 7 = some ⟨4⟩ :=
    Option.bind_eq_some_iff.mp (by decide +kernel)
  exact ⟨by decide +kernel, by decide +kernel, sess, hs, hpending,
    judged_run t 4 () ops hs hpending .noDecision true⟩

end Exchange

end Arbiter
