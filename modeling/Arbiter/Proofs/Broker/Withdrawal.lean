import Arbiter.Proofs.Broker.Conclusion

/-!
The first half of a teardown. The session is gone and every instance it held has left its head; the
heads that have no live instance now are ready to be resolved. The tables are coherent before any of
them is.
-/

namespace Arbiter

theorem Table.mem_values {κ α : Type} [DecidableEq κ] {t : Table κ α} {a : α} :
    a ∈ t.values ↔ ∃ k, t.get? k = some a := by
  simp only [values, List.mem_map, Prod.exists, get?_eq_some]
  constructor
  · rintro ⟨k, _, h, rfl⟩
    exact ⟨k, h⟩
  · rintro ⟨k, h⟩
    exact ⟨k, a, h, rfl⟩

theorem Table.nodup_values {κ α : Type} [DecidableEq κ] {t : Table κ α}
    (h : ∀ k k' a, t.get? k = some a → t.get? k' = some a → k = k') : t.values.Nodup := by
  refine List.Nodup.map_on ?_ (List.Nodup.of_map Prod.fst t.nodup)
  rintro ⟨k, a⟩ hk ⟨k', a'⟩ hk' (rfl : a = a')
  rw [h k k' a (get?_eq_some.mpr hk) (get?_eq_some.mpr hk')]

namespace Exchange

variable {ω σ : Type}

@[simp] theorem withdrawInstance_token (h : Head ω) (i : InstanceId) (answered : Bool) :
    (withdrawInstance h i answered).token = h.token := by
  unfold withdrawInstance
  split <;> rfl

@[simp] theorem withdrawInstance_kind (h : Head ω) (i : InstanceId) (answered : Bool) :
    (withdrawInstance h i answered).kind = h.kind := by
  unfold withdrawInstance
  split <;> rfl

@[simp] theorem withdrawInstance_instances (h : Head ω) (i : InstanceId) (answered : Bool) :
    (withdrawInstance h i answered).instances = h.instances.erase i := by
  unfold withdrawInstance
  split <;> rfl

@[simp] theorem withdrawInstance_decider (h : Head ω) (i : InstanceId) (answered : Bool) :
    (withdrawInstance h i answered).decider = h.decider := by
  unfold withdrawInstance
  split <;> rfl

theorem withdrawInstance_verdict {h : Head ω} {i : InstanceId} {answered : Bool}
    (hlive : (withdrawInstance h i answered).live ≠ 0) :
    (withdrawInstance h i answered).verdict = h.verdict := by
  unfold withdrawInstance at hlive ⊢
  split
  · rfl
  · rename_i hnot
    rw [if_neg hnot] at hlive
    exact if_neg hlive

structure Withdrawable (b : Broker ω) (p : InstanceId × Instance) : Prop where
  present : b.instances.get? p.1 = some p.2
  headed : ∃ h, b.heads.get? p.2.head = some h

theorem withdraw_eq {w : Withdrawal ω} {p : InstanceId × Instance} {h : Head ω}
    (hi : w.broker.instances.get? p.1 = some p.2) (hh : w.broker.heads.get? p.2.head = some h) :
    withdraw w p.1 =
      { broker := { w.broker with
          instances := w.broker.instances.erase p.1
          heads := w.broker.heads.modify p.2.head fun _ =>
            withdrawInstance h p.1 p.2.verdictReceived }
        drained := w.drained + 1
        ready := if (withdrawInstance h p.1 p.2.verdictReceived).live = 0
          then w.ready ++ [p.2.head] else w.ready } := by
  simp only [withdraw, hi, hh]
  rfl

/-- From `w` to `w'` some instances of one session were withdrawn, no two of one head. -/
structure Withdrawn (ps : List (InstanceId × Instance)) (w w' : Withdrawal ω) : Prop where
  sessions : w'.broker.sessions = w.broker.sessions
  nextId : w'.broker.nextId = w.broker.nextId
  settledCapacity : w'.broker.settledCapacity = w.broker.settledCapacity
  instances (i) : w'.broker.instances.get? i =
    if i ∈ ps.map Prod.fst then none else w.broker.instances.get? i
  untouched {id} : id ∉ ps.map (·.2.head) → w'.broker.heads.get? id = w.broker.heads.get? id
  touched {p h} : p ∈ ps → w.broker.heads.get? p.2.head = some h →
    w'.broker.heads.get? p.2.head = some (withdrawInstance h p.1 p.2.verdictReceived)
  drained : w'.drained = w.drained + ps.length
  ready : w'.ready = w.ready ++ (ps.map (·.2.head)).filter fun id =>
    (w'.broker.heads.get? id).any (·.live = 0)

theorem foldl_withdraw {w : Withdrawal ω} {ps : List (InstanceId × Instance)}
    (hps : ∀ p ∈ ps, Withdrawable w.broker p) (hnodup : (ps.map Prod.fst).Nodup)
    (hheads : (ps.map (·.2.head)).Nodup) : Withdrawn ps w ((ps.map Prod.fst).foldl withdraw w) := by
  induction ps generalizing w with
  | nil => constructor <;> simp
  | cons p ps ih =>
    obtain ⟨hi, h, hh⟩ := hps p (List.mem_cons_self ..)
    rw [List.map_cons, List.nodup_cons] at hnodup hheads
    have hfirst := withdraw_eq hi hh
    have hget (id) : (withdraw w p.1).broker.heads.get? id = if id = p.2.head then
        some (withdrawInstance h p.1 p.2.verdictReceived) else w.broker.heads.get? id := by
      rw [hfirst]
      exact Table.get?_modify_of_get? hh _ id
    have hinst (i) : (withdraw w p.1).broker.instances.get? i =
        if i = p.1 then none else w.broker.instances.get? i := by
      rw [hfirst]
      exact Table.get?_erase ..
    have hrest (q) (hq : q ∈ ps) : Withdrawable (withdraw w p.1).broker q := by
      obtain ⟨hi', h', hh'⟩ := hps q (List.mem_cons_of_mem _ hq)
      refine ⟨?_, ?_⟩
      · rw [hinst, if_neg, hi']
        exact fun heq => hnodup.1 (heq ▸ List.mem_map_of_mem hq)
      · rw [hget, hh']
        split
        · exact ⟨_, rfl⟩
        · exact ⟨h', rfl⟩
    have htail := ih hrest hnodup.2 hheads.2
    have hdrained : (withdraw w p.1).drained = w.drained + 1 := by rw [hfirst]
    rw [List.map_cons, List.foldl_cons]
    -- No other instance of the list is of this head, so it stays as the first withdrawal left it.
    have hdone : ((ps.map Prod.fst).foldl withdraw (withdraw w p.1)).broker.heads.get? p.2.head =
        some (withdrawInstance h p.1 p.2.verdictReceived) := by
      rw [htail.untouched hheads.1, hget, if_pos rfl]
    exact {
      sessions := by rw [htail.sessions, hfirst]
      nextId := by rw [htail.nextId, hfirst]
      settledCapacity := by rw [htail.settledCapacity, hfirst]
      instances := fun i => by
        rw [htail.instances, hinst]
        by_cases hp : i = p.1 <;>
          simp only [List.map_cons, List.mem_cons, hp, true_or, false_or, ↓reduceIte, ite_self]
      untouched := fun {id} hid => by
        rw [List.map_cons, List.mem_cons, not_or] at hid
        rw [htail.untouched hid.2, hget, if_neg hid.1]
      touched := fun {q h'} hq hh' => by
        rcases List.mem_cons.mp hq with rfl | hq
        · rw [hh] at hh'
          cases hh'
          exact hdone
        · refine htail.touched hq ?_
          rw [hget, if_neg, hh']
          exact fun heq => hheads.1 (heq ▸ List.mem_map_of_mem hq)
      drained := by
        rw [htail.drained, hdrained, List.length_cons]
        omega
      ready := by
        rw [htail.ready, List.map_cons, List.filter_cons, hdone, hfirst]
        split <;> simp_all }

structure Closed (s : SessionId) (b b' : Broker ω) (ready : List HeadId) : Prop where
  sessions : b'.sessions = b.sessions.erase s
  nextId : b'.nextId = b.nextId
  settledCapacity : b'.settledCapacity = b.settledCapacity
  instances (i) : b'.instances.get? i = (b.instances.get? i).filter fun inst => inst.session ≠ s
  untouched {id} : (∀ i inst, b.instances.get? i = some inst → inst.session = s → inst.head ≠ id) →
    b'.heads.get? id = b.heads.get? id
  touched {i inst h} : b.instances.get? i = some inst → inst.session = s →
    b.heads.get? inst.head = some h →
    b'.heads.get? inst.head = some (withdrawInstance h i inst.verdictReceived)
  nodup : ready.Nodup
  ready {id} : id ∈ ready ↔ (∃ i inst, b.instances.get? i = some inst ∧ inst.session = s ∧
    inst.head = id) ∧ ∃ h, b'.heads.get? id = some h ∧ h.live = 0

section Closing

variable {b : Broker ω} {s : SessionId} {sess : Session}

theorem awaited?_of_pending (hs : b.sessions.get? s = some sess) {token : UInt64} {i : InstanceId}
    (h : sess.pending.get? token = some i) : b.awaited? s token = some i := by
  simp [Broker.awaited?, hs, h]

theorem mem_rows_pending (hb : b.Coherent) (hs : b.sessions.get? s = some sess) {i : InstanceId}
    {inst : Instance} : (i, inst) ∈ b.instances.rows sess.pending.values ↔
      b.instances.get? i = some inst ∧ inst.session = s := by
  rw [Table.mem_rows, Table.mem_values]
  constructor
  · rintro ⟨⟨token, htoken⟩, hi⟩
    obtain ⟨inst', hi', hsession, -⟩ := hb.awaited.mp (awaited?_of_pending hs htoken)
    rw [hi] at hi'
    cases hi'
    exact ⟨hi, hsession⟩
  · rintro ⟨hi, rfl⟩
    have hawaited := hb.awaited?_of_instance hi
    rw [Broker.awaited?, hs] at hawaited
    exact ⟨⟨inst.token, hawaited⟩, hi⟩

theorem map_fst_rows_pending (hb : b.Coherent) (hs : b.sessions.get? s = some sess) :
    (b.instances.rows sess.pending.values).map Prod.fst = sess.pending.values :=
  Table.map_fst_rows fun i hi => by
    obtain ⟨token, htoken⟩ := Table.mem_values.mp hi
    obtain ⟨inst, hi, -⟩ := hb.awaited.mp (awaited?_of_pending hs htoken)
    exact ⟨inst, hi⟩

theorem nodup_pending (hb : b.Coherent) (hs : b.sessions.get? s = some sess) :
    sess.pending.values.Nodup := by
  refine Table.nodup_values fun token token' i h h' => ?_
  obtain ⟨inst, hi, -, rfl⟩ := hb.awaited.mp (awaited?_of_pending hs h)
  obtain ⟨inst', hi', -, rfl⟩ := hb.awaited.mp (awaited?_of_pending hs h')
  rw [hi] at hi'
  cases hi'
  rfl

theorem nodup_heads_pending (hb : b.Coherent) (hs : b.sessions.get? s = some sess) :
    ((b.instances.rows sess.pending.values).map (·.2.head)).Nodup := by
  have hnodup := map_fst_rows_pending hb hs ▸ nodup_pending hb hs
  refine List.Nodup.map_on ?_ (List.Nodup.of_map Prod.fst hnodup)
  rintro ⟨i, inst⟩ hi ⟨j, inst'⟩ hj hhead
  obtain ⟨hi, hsession⟩ := (mem_rows_pending hb hs).mp hi
  obtain ⟨hj, hsession'⟩ := (mem_rows_pending hb hs).mp hj
  obtain rfl := hb.instance_unique hi hj hhead (hsession.trans hsession'.symm)
  rw [hi] at hj
  cases hj
  rfl

def closing (b : Broker ω) (s : SessionId) (sess : Session) : Withdrawal ω :=
  sess.pending.values.foldl withdraw ⟨{ b with sessions := b.sessions.erase s }, 0, []⟩

theorem withdrawn_closing (hb : b.Coherent) (hs : b.sessions.get? s = some sess) :
    Withdrawn (b.instances.rows sess.pending.values)
      ⟨{ b with sessions := b.sessions.erase s }, 0, []⟩ (closing b s sess) := by
  have hfst := map_fst_rows_pending hb hs
  have hps (p) (hp : p ∈ b.instances.rows sess.pending.values) :
      Withdrawable { b with sessions := b.sessions.erase s } p := by
    obtain ⟨i, inst⟩ := p
    obtain ⟨hi, -⟩ := (mem_rows_pending hb hs).mp hp
    obtain ⟨h, hh, -⟩ := hb.listed hi
    exact ⟨hi, h, hh⟩
  have hw := foldl_withdraw (w := ⟨{ b with sessions := b.sessions.erase s }, 0, []⟩) hps
    (hfst.symm ▸ nodup_pending hb hs) (nodup_heads_pending hb hs)
  rwa [hfst] at hw

theorem closing_spec (hb : b.Coherent) (hs : b.sessions.get? s = some sess) :
    Closed s b (closing b s sess).broker (closing b s sess).ready ∧
      (closing b s sess).drained = sess.pending.size := by
  have hw := withdrawn_closing hb hs
  have hmem {i inst} (hi : b.instances.get? i = some inst) :
      i ∈ (b.instances.rows sess.pending.values).map Prod.fst ↔ inst.session = s := by
    rw [List.mem_map]
    constructor
    · rintro ⟨⟨j, inst'⟩, hj, rfl⟩
      obtain ⟨hj, hsession⟩ := (mem_rows_pending hb hs).mp hj
      rw [hi] at hj
      cases hj
      exact hsession
    · intro hsession
      exact ⟨(i, inst), (mem_rows_pending hb hs).mpr ⟨hi, hsession⟩, rfl⟩
  have hready : (closing b s sess).ready = ((b.instances.rows sess.pending.values).map
      (·.2.head)).filter fun id => ((closing b s sess).broker.heads.get? id).any (·.live = 0) :=
    hw.ready
  refine ⟨?_, ?_⟩
  · exact {
      sessions := hw.sessions
      nextId := hw.nextId
      settledCapacity := hw.settledCapacity
      instances := fun i => by
        rw [hw.instances]
        cases hi : b.instances.get? i with
        | none => simp
        | some inst =>
          by_cases hsession : inst.session = s <;> simp [Option.filter_some, hmem hi, hsession]
      untouched := fun {id} hid => hw.untouched fun hmem => by
        obtain ⟨⟨i, inst⟩, hi, rfl⟩ := List.mem_map.mp hmem
        obtain ⟨hi, hsession⟩ := (mem_rows_pending hb hs).mp hi
        exact hid i inst hi hsession rfl
      touched := fun {i inst h} hi hsession hh =>
        hw.touched ((mem_rows_pending hb hs).mpr ⟨hi, hsession⟩) hh
      nodup := hready ▸ (nodup_heads_pending hb hs).filter _
      ready := fun {id} => by
        rw [hready, List.mem_filter, List.mem_map, Option.any_eq_true]
        simp only [Prod.exists, mem_rows_pending hb hs, decide_eq_true_eq, and_assoc] }
  · have hlength := congrArg List.length (map_fst_rows_pending hb hs)
    rw [List.length_map] at hlength
    rw [hw.drained, hlength, Table.values, List.length_map, Table.size, Nat.zero_add]

end Closing

namespace Closed

variable {b b' : Broker ω} {s : SessionId} {ready : List HeadId}

theorem head_cases (hc : Closed s b b' ready) (hb : b.Coherent) {id : HeadId} {h' : Head ω}
    (hh' : b'.heads.get? id = some h') : ∃ h, b.heads.get? id = some h ∧
      ((h' = h ∧ ∀ i ∈ h.instances, ∀ inst, b.instances.get? i = some inst → inst.session ≠ s) ∨
        ∃ i inst, i ∈ h.instances ∧ b.instances.get? i = some inst ∧ inst.session = s ∧
          inst.head = id ∧ h' = withdrawInstance h i inst.verdictReceived) := by
  by_cases hheld : ∃ i inst, b.instances.get? i = some inst ∧ inst.session = s ∧ inst.head = id
  · obtain ⟨i, inst, hi, hsession, rfl⟩ := hheld
    obtain ⟨h, hh, -, -, hmem⟩ := hb.listed hi
    rw [hc.touched hi hsession hh] at hh'
    exact ⟨h, hh, .inr ⟨i, inst, hmem, hi, hsession, rfl, (Option.some.inj hh').symm⟩⟩
  · rw [hc.untouched fun i inst hi hsession hhead => hheld ⟨i, inst, hi, hsession, hhead⟩] at hh'
    refine ⟨h', hh', .inl ⟨rfl, fun i hi inst hinst hsession => hheld ?_⟩⟩
    obtain ⟨inst', hi', hhead⟩ := (hb.tallies hh').member hi
    rw [hinst] at hi'
    cases hi'
    exact ⟨i, inst, hinst, hsession, hhead⟩

theorem awaited? (hc : Closed s b b' ready) (s' : SessionId) (token : UInt64) :
    b'.awaited? s' token = if s' = s then none else b.awaited? s' token := by
  rw [Broker.awaited?, hc.sessions, Table.get?_erase]
  split <;> rfl

theorem instance_iff (hc : Closed s b b' ready) {i : InstanceId} {inst : Instance} :
    b'.instances.get? i = some inst ↔ b.instances.get? i = some inst ∧ inst.session ≠ s := by
  rw [hc.instances, Option.filter_eq_some_iff, decide_eq_true_eq]

theorem listed (hc : Closed s b b' ready) (hb : b.Coherent) {i : InstanceId} {inst : Instance}
    (hi : b'.instances.get? i = some inst) : ∃ h, b'.heads.get? inst.head = some h ∧
      h.token = inst.token ∧ h.kind = .ask ∧ i ∈ h.instances := by
  obtain ⟨hi, hne⟩ := hc.instance_iff.mp hi
  obtain ⟨h, hh, htoken, hkind, hmem⟩ := hb.listed hi
  by_cases hheld : ∃ j inst', b.instances.get? j = some inst' ∧ inst'.session = s ∧
      inst'.head = inst.head
  · obtain ⟨j, inst', hj, hsession, hhead⟩ := hheld
    have htouched := hc.touched hj hsession (hhead ▸ hh)
    rw [hhead] at htouched
    -- The instance that left is the session's, so this one is still listed.
    refine ⟨_, htouched, by simpa using htoken, by simpa using hkind, ?_⟩
    rw [withdrawInstance_instances, (hb.tallies hh).nodup.mem_erase_iff]
    refine ⟨?_, hmem⟩
    rintro rfl
    rw [hi] at hj
    cases hj
    exact hne hsession
  · refine ⟨h, ?_, htoken, hkind, hmem⟩
    rw [hc.untouched fun j inst' hj hsession hhead => hheld ⟨j, inst', hj, hsession, hhead⟩, hh]

theorem tallies (hc : Closed s b b' ready) (hb : b.Coherent) {id : HeadId} {h' : Head ω}
    (hh' : b'.heads.get? id = some h') : h'.Tallies id b'.instances := by
  obtain ⟨h, hh, hcases⟩ := hc.head_cases hb hh'
  rcases hcases with ⟨rfl, hothers⟩ | ⟨i, inst, hmem, hi, hsession, rfl, rfl⟩
  · refine (hb.tallies hh).congr fun i hi => ?_
    obtain ⟨inst, hget, -⟩ := (hb.tallies hh).member hi
    rw [hget, hc.instance_iff]
    exact ⟨hget, hothers i hi inst hget⟩
  · refine ((hb.tallies hh).withdraw hmem hi).congr fun j hj => ?_
    rw [withdrawInstance_instances, (hb.tallies hh).nodup.mem_erase_iff] at hj
    obtain ⟨inst', hget, hhead⟩ := (hb.tallies hh).member hj.2
    rw [Table.get?_erase, if_neg hj.1, hget, hc.instance_iff]
    refine ⟨hget, fun hsession' => hj.1 ?_⟩
    exact hb.instance_unique hget hi hhead (hsession'.trans hsession.symm)

theorem coherent (hc : Closed s b b' ready) (hb : b.Coherent) : b'.Coherent := by
  constructor
  · intro s' hs'
    rw [hc.nextId] at hs'
    rw [hc.sessions, Table.get?_erase, hb.session_fresh hs', ite_self]
  · intro id hid
    rw [hc.nextId] at hid
    cases hh' : b'.heads.get? id with
    | none => rfl
    | some h' =>
      obtain ⟨h, hh, -⟩ := hc.head_cases hb hh'
      rw [hb.head_fresh hid] at hh
      cases hh
  · intro i hi
    rw [hc.nextId] at hi
    rw [hc.instances, hb.instance_fresh hi, Option.filter_none]
  · intro s' token i
    rw [hc.awaited?]
    simp only [hc.instance_iff, and_assoc]
    split
    · subst s'
      simp only [reduceCtorEq, false_iff, not_exists, not_and]
      exact fun inst _ hne hsession => absurd hsession hne
    · rename_i hne
      rw [hb.awaited]
      constructor
      · rintro ⟨inst, hi, rfl, rfl⟩
        exact ⟨inst, hi, hne, rfl, rfl⟩
      · rintro ⟨inst, hi, -, hrest⟩
        exact ⟨inst, hi, hrest⟩
  · exact fun hi => hc.listed hb hi
  · exact fun hh' => hc.tallies hb hh'
  · exact fun hi => hb.unreplied (hc.instance_iff.mp hi).1

end Closed

end Exchange

end Arbiter
