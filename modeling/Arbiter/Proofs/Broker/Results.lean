import Arbiter.Proofs.Broker.Delivery

/-!
All that a broker sends in a run. A message is a copy of an event or the result of an instance that
the history knows; every instance is accounted for in one of three ways, the results of a head agree
with its completion, and one of them at most says that the verdict is the receiver's own.
-/

namespace Arbiter

def Send.saysYou (send : Send) : Bool := send.message.opcode? = some Opcode.resultYou.code

def Send.IsEvent (send : Send) : Prop :=
  ∃ s id e, send.purpose = .event s id ∧ send.message.decode = .ok (.event e)

def yous (id : HeadId) (sends : List Send) : Nat :=
  sends.countP fun send => send.purpose.concludes id && send.saysYou

theorem yous_append (id : HeadId) (sends sends' : List Send) :
    yous id (sends ++ sends') = yous id sends + yous id sends' :=
  List.countP_append ..

theorem yous_eq_zero {id : HeadId} {sends : List Send}
    (h : ∀ send ∈ sends, send.purpose.concludes id = false) : yous id sends = 0 :=
  List.countP_eq_zero.mpr fun send hs => by simp [h send hs]

theorem Message.opcode?_outcome {token : UInt64} {you : Bool} {uid : UInt32} {verdict : Verdict}
    {m : Message} (h : outcome token you uid verdict = .ok m) :
    m.opcode? = some (if you then Opcode.resultYou else Opcode.resultOther).code :=
  opcode?_of_compose h

namespace Exchange

variable {ω σ : Type} {past : List (Step ω σ)} {x y : Exchange ω σ} {t : Transport σ}
  {i : InstanceId} {inst : Instance}

theorem offers_sends {id : HeadId} (h : Relation.ReflTransGen (Offer t id) x y) {send : Send}
    (hs : send ∈ y.sends) : send ∈ x.sends ∨ ∃ s sess h, send.purpose = .event s id ∧
      x.broker.sessions.get? s = some sess ∧ send.channel = sess.channel ∧
      x.broker.heads.get? id = some h ∧ send.message = h.message := by
  induction h with
  | refl => exact .inl hs
  | @tail y z hy hoffer ih =>
    cases hoffer with
    | @sent s sess h' hsession hh' =>
      rw [send_sends, List.mem_append, List.mem_singleton] at hs
      rcases hs with hs | rfl
      · exact ih hs
      · have hsame := offers_account hy id
        rw [hh', Option.map_some, eq_comm, Option.map_eq_some_iff] at hsame
        obtain ⟨h, hh, hsame⟩ := hsame
        have hprofile := offers_profile hy s
        rw [hsession, Option.map_some, eq_comm, Option.map_eq_some_iff] at hprofile
        obtain ⟨sess', hs', hprofile⟩ := hprofile
        have hchannel : sess'.channel = sess.channel := congrArg (fun p => p.2.1) hprofile
        exact .inr ⟨s, sess', h, rfl, hs', hchannel.symm, hh, (congrArg Prod.fst hsame).symm⟩
    | queued => exact ih hs
    | lost => exact ih hs

theorem Effect.sends {op : Operation ω} {r : Response} {ids : List HeadId}
    (he : Effect t x op r y ids) (hd : Docket past x) {send : Send} (hs : send ∈ y.sends) :
    send ∈ x.sends ∨ send.IsEvent := by
  cases he with
  | offered _ _ hy =>
    refine (offers_sends hy hs).imp_right ?_
    rintro ⟨s, -, h, hpurpose, -, -, hh, hmessage⟩
    obtain ⟨e, he⟩ := ((hd.standing _).recorded hh).1.event
    exact ⟨s, _, e, hpurpose, hmessage ▸ he⟩
  | _ => exact .inl hs

theorem perform_sends (hb : x.broker.Coherent) (hd : Docket past x) (op : Operation ω)
    {send : Send} (hs : send ∈ (x.perform t op).2.sends) : send ∈ x.sends ∨ send.IsEvent ∨
      ∃ i inst, x.broker.instances.get? i = some inst ∧
        send.purpose = .outcome inst.session inst.head := by
  obtain ⟨y, ids, he, hy⟩ := performs (t := t) hb op
  rw [hy] at hs
  by_cases hne : ids = []
  · subst ids
    exact (he.sends hd hs).imp_right .inl
  · -- Only an effect that leaves nothing ready adds instances: here all of them are older.
    refine (resolveAll_induction (P := fun _ z =>
      (∀ {i inst}, z.broker.instances.get? i = some inst →
        ∃ inst', x.broker.instances.get? i = some inst' ∧ inst'.copy = inst.copy) ∧
      ∀ {send}, send ∈ z.sends → send ∈ x.sends ∨ send.IsEvent ∨
        ∃ i inst, x.broker.instances.get? i = some inst ∧
          send.purpose = .outcome inst.session inst.head)
      t (he.coherent hb) (he.ready hb) ?_ ?_).2 hs
    · exact ⟨he.copy_of_ready hb hne, fun hs => (he.sends hd hs).imp_right .inl⟩
    · rintro id rest h y z new hb hh hx ⟨hcopies, hsends⟩
      refine ⟨fun {i inst} hi => ?_, fun {send} hs => ?_⟩
      · rw [hx.instances] at hi
        split at hi
        · cases hi
        · exact hcopies hi
      · rw [hx.sends, List.mem_append] at hs
        rcases hs with hs | hs
        · exact hsends hs
        · obtain ⟨⟨i, inst⟩, howed, htells⟩ := hx.owed hb hh hs
          obtain ⟨inst', hi, hcopy⟩ := hcopies howed.present
          obtain ⟨-, hsession, hhead⟩ := Instance.copy_eq.mp hcopy
          refine .inr (.inr ⟨i, inst', hi, ?_⟩)
          rw [htells.purpose, hsession, hhead]

theorem resolved_perform (hb : x.broker.Coherent) (op : Operation ω) {id : HeadId}
    (hid : id ∈ x.resolved) : id ∈ (x.perform t op).2.resolved := by
  refine perform_induction (P := fun z => id ∈ z.resolved) hb op
    (fun he => (he.quiet hb).resolved ▸ hid) fun _ _ hx hid => ?_
  rw [hx.resolved]
  exact List.mem_append_left _ hid

theorem countP_decidedBy_le {h : Head ω} {ids : List InstanceId} (hnodup : ids.Nodup) :
    ids.countP h.decidedBy ≤ 1 := by
  unfold Head.decidedBy
  cases h.decider with
  | none => simp
  | some d =>
    refine Nat.le_trans (Nat.le_of_eq ?_) (List.nodup_iff_count_le_one.mp hnodup d.inst)
    refine List.countP_congr fun i _ => ?_
    rw [Option.any_some, decide_eq_true_eq, beq_iff_eq, eq_comm]

theorem Broadcast.yous_le {id : HeadId} {h : Head ω} {new : List Send}
    (hx : Broadcast id h x y new) (hb : x.broker.Coherent) (hh : x.broker.heads.get? id = some h) :
    yous id new ≤ 1 := by
  have hfilter : List.Forall₂ (Tells x.broker h)
      ((x.broker.instances.rows h.instances).filter fun p => h.decidedBy p.1)
      (new.filter Send.saysYou) := by
    refine List.rel_filter ?_ hx.told
    intro p send htells
    simp only [Send.saysYou, Message.opcode?_outcome htells.message, decide_eq_true_eq,
      Option.some.injEq]
    cases h.decidedBy p.1 <;> decide
  have hcount : yous id new = new.countP Send.saysYou :=
    List.countP_congr fun send hs => by simp [hx.concludes hb hh hs]
  -- The instances of a head are distinct, and the decider is one of them or none.
  have hrows : (x.broker.instances.rows h.instances).countP (fun p => h.decidedBy p.1) =
      h.instances.countP h.decidedBy := by
    rw [← congrArg (List.countP h.decidedBy) (map_fst_rows hb hh), List.countP_map]
    rfl
  rw [hcount, List.countP_eq_length_filter, ← hfilter.length_eq, ← List.countP_eq_length_filter,
    hrows]
  exact countP_decidedBy_le (hb.tallies hh).nodup

theorem Docket.yous_eq_zero {id : HeadId} (hd : Docket past x) (hnot : id ∉ x.resolved) :
    yous id x.sends = 0 :=
  Arbiter.yous_eq_zero fun _ hs => Bool.eq_false_iff.mpr fun h => hnot (hd.concluded hs h)

theorem yous_perform (hb : x.broker.Coherent) (hd : Docket past x) (op : Operation ω)
    (hyous : ∀ id, yous id x.sends ≤ 1) (id : HeadId) :
    yous id (x.perform t op).2.sends ≤ 1 := by
  refine (perform_induction (P := fun z => Docket (past ++ [x.step t op]) z ∧
    yous id z.sends ≤ 1) hb op (fun he => ⟨he.docket hb hd _, ?_⟩) ?_).2
  · obtain ⟨new, hnew, hevents⟩ := (he.quiet hb).sends
    rw [hnew, yous_append, yous_eq_zero fun send hs => hevents send hs id]
    exact hyous id
  · rintro id' h y z new hb hh hx ⟨hd, hle⟩
    refine ⟨hx.docket hb hh hd, ?_⟩
    rw [hx.sends, yous_append]
    by_cases hid : id' = id
    · subst id'
      rw [hd.yous_eq_zero ((hd.standing id).recorded hh).2.2, Nat.zero_add]
      exact hx.yous_le hb hh
    · have hnew : yous id new = 0 := yous_eq_zero fun _ hs => hx.not_concludes hb hh hid hs
      rw [hnew, Nat.add_zero]
      exact hle

theorem session_perform (hb : x.broker.Coherent) (hr : Roll past x) (op : Operation ω)
    {s : SessionId} {sess : Session} (hs : x.broker.sessions.get? s = some sess)
    (hstays : ¬(x.step t op).TearsDown s) :
    ∃ sess, (x.perform t op).2.broker.sessions.get? s = some sess := by
  obtain ⟨hchannel, htorn⟩ := (hr.attendance s).of_session hs
  refine ((roll_perform (t := t) hb hr op).attendance s).session_of_issued ?_ ?_
  · rw [channelOf, latest_snoc, show latest _ past = some sess.channel from hchannel]
    cases (x.step t op).opened? s <;> simp
  · rw [torn_snoc, not_or]
    exact ⟨htorn, hstays⟩

theorem resolvedWhileOpen_perform (hb : x.broker.Coherent) (hd : Docket past x) (hr : Roll past x)
    (hf : Fate past x i inst) (op : Operation ω)
    (hopen : inst.head ∈ x.resolved → ¬TornBefore past inst.session inst.head →
      ResolvedWhileOpen past inst.session inst.head)
    (hresolved : inst.head ∈ (x.perform t op).2.resolved)
    (htorn : ¬TornBefore (past ++ [x.step t op]) inst.session inst.head) :
    ResolvedWhileOpen (past ++ [x.step t op]) inst.session inst.head := by
  rw [tornBefore_snoc, not_or] at htorn
  rw [resolvedWhileOpen_snoc]
  cases hf with
  | torn htorn' => exact absurd htorn' htorn.1
  | told hresolved' => exact .inl (hopen hresolved' htorn.1)
  | pending hi hcopy =>
    have hunresolved := hd.unresolved hb hi
    obtain ⟨sess, hs⟩ := session_of_instance hb hi
    obtain ⟨-, hsession, hhead⟩ := Instance.copy_eq.mp hcopy
    rw [hsession] at hs
    rw [hhead] at hunresolved
    -- Had this step torn the session down, it would have done so before the head was resolved.
    refine .inr ⟨hunresolved, hresolved, session_perform hb hr op hs fun htears => ?_⟩
    exact htorn.2 ⟨htears, hunresolved⟩

theorem Fate.unique (hb : x.broker.Coherent) (hd : Docket past x) (hr : Roll past x)
    (hf : Fate past x i inst) {j : InstanceId} {inst' : Instance}
    (hj : x.broker.instances.get? j = some inst') (hsession : inst.session = inst'.session)
    (hhead : inst.head = inst'.head) : i = j := by
  cases hf with
  | pending hi hcopy =>
    obtain ⟨-, hsession', hhead'⟩ := Instance.copy_eq.mp hcopy
    exact hb.instance_unique hi hj (hhead'.trans hhead) (hsession'.trans hsession)
  | torn htorn =>
    obtain ⟨sess, hs⟩ := session_of_instance hb hj
    rw [← hsession, (hr.attendance inst.session).absent_of_torn htorn.torn] at hs
    cases hs
  | told hresolved => exact absurd (hhead ▸ hresolved) (hd.unresolved hb hj)

theorem dispatch_queued (hb : x.broker.Coherent) {s : SessionId} {id : HeadId}
    (hqueued : (x.dispatch t s id).1 = .ok .queued) :
    ∃ i inst, x.broker.instances.get? i = none ∧
      (x.dispatch t s id).2.broker.instances.get? i = some inst ∧ inst.session = s ∧
      inst.head = id := by
  have hspec := dispatch_spec t x s id
  rw [hqueued] at hspec
  generalize (x.dispatch t s id).2 = y at hspec
  cases hspec with
  | @queued sess h hs hh =>
    exact ⟨⟨x.broker.nextId⟩, .new h.token s id, hb.instance_fresh (Nat.le_refl _),
      (Broker.instances_addInstance ..).trans (if_pos rfl), rfl, rfl⟩

/-- What every run keeps of its history: the tables, the docket and the roll, where its messages
come from, and the way of every instance there ever was. -/
structure Chronicle (past : List (Step ω σ)) (x : Exchange ω σ) : Prop where
  coherent : x.broker.Coherent
  docket : Docket past x
  roll : Roll past x
  seen {i : InstanceId} {inst : Instance} : x.broker.instances.get? i = some inst →
    ∃ step ∈ past, step.after.broker.instances.get? i = some inst
  source {send : Send} : send ∈ x.sends → send.IsEvent ∨ ∃ step ∈ past, ∃ i inst,
    step.after.broker.instances.get? i = some inst ∧
      send.purpose = .outcome inst.session inst.head
  yous (id : HeadId) : yous id x.sends ≤ 1
  apart {s : SessionId} {id : HeadId} : ResolvedWhileOpen past s id →
    id ∈ x.resolved ∧ ¬TornBefore past s id
  fate {step : Step ω σ} {i : InstanceId} {inst : Instance} : step ∈ past →
    step.after.broker.instances.get? i = some inst → Fate past x i inst ∧
      (inst.head ∈ x.resolved → ¬TornBefore past inst.session inst.head →
        ResolvedWhileOpen past inst.session inst.head)
  unique {step step' : Step ω σ} {i j : InstanceId} {inst inst' : Instance} : step ∈ past →
    step' ∈ past → step.after.broker.instances.get? i = some inst →
    step'.after.broker.instances.get? j = some inst' → inst.session = inst'.session →
    inst.head = inst'.head → i = j
  queued {step : Step ω σ} {s : SessionId} {id : HeadId} : step ∈ past →
    step.operation = .dispatch s id → step.response = .dispatched .queued →
    ∃ i inst, step.before.broker.instances.get? i = none ∧
      step.after.broker.instances.get? i = some inst ∧ inst.session = s ∧ inst.head = id

theorem chronicle_start (capacity : Nat) (transport : σ) :
    Chronicle [] (start (.new capacity : Broker ω) transport) where
  coherent := Broker.coherent_new capacity
  docket := docket_start capacity transport
  roll := roll_start capacity transport
  seen h := by cases h
  source h := by cases h
  yous _ := Nat.zero_le _
  apart h := by simp [ResolvedWhileOpen] at h
  fate h := by cases h
  unique h := by cases h
  queued h := by cases h

theorem Chronicle.perform (h : Chronicle past x) (op : Operation ω) :
    Chronicle (past ++ [x.step t op]) (x.perform t op).2 := by
  have hb := coherent_perform (t := t) h.coherent op
  have hd := docket_perform (t := t) h.coherent h.docket op
  have hr := roll_perform (t := t) h.coherent h.roll op
  have hfate {step i inst} (hstep : step ∈ past ++ [x.step t op])
      (hi : step.after.broker.instances.get? i = some inst) :
      Fate (past ++ [x.step t op]) (x.perform t op).2 i inst ∧
        (inst.head ∈ (x.perform t op).2.resolved →
          ¬TornBefore (past ++ [x.step t op]) inst.session inst.head →
          ResolvedWhileOpen (past ++ [x.step t op]) inst.session inst.head) := by
    rcases List.mem_append.mp hstep with hstep | hstep
    · obtain ⟨hfate, hopen⟩ := h.fate hstep hi
      exact ⟨fate_perform h.coherent h.docket h.roll hfate op,
        resolvedWhileOpen_perform h.coherent h.docket h.roll hfate op hopen⟩
    · rw [List.mem_singleton.mp hstep] at hi
      exact ⟨.pending hi rfl, fun hresolved => absurd hresolved (hd.unresolved hb hi)⟩
  refine ⟨hb, hd, hr, ?_, ?_, yous_perform h.coherent h.docket op h.yous, ?_, hfate, ?_, ?_⟩
  · exact fun hi => ⟨x.step t op, by simp, hi⟩
  · intro send hs
    rcases perform_sends h.coherent h.docket op hs with hs | hevent | ⟨i, inst, hi, hpurpose⟩
    · refine (h.source hs).imp_right ?_
      rintro ⟨step, hstep, hrest⟩
      exact ⟨step, List.mem_append_left _ hstep, hrest⟩
    · exact .inl hevent
    · obtain ⟨step, hstep, hi⟩ := h.seen hi
      exact .inr ⟨step, List.mem_append_left _ hstep, i, inst, hi, hpurpose⟩
  · intro s id hopen
    rw [tornBefore_snoc, not_or]
    rcases resolvedWhileOpen_snoc.mp hopen with hopen | ⟨-, hafter, sess, hs⟩
    · obtain ⟨hresolved, htorn⟩ := h.apart hopen
      exact ⟨resolved_perform h.coherent op hresolved, htorn, fun hnew => hnew.2 hresolved⟩
    · have hnot := ((hr.attendance s).of_session hs).2
      rw [torn_snoc, not_or] at hnot
      exact ⟨hafter, fun htorn => hnot.1 htorn.torn, fun hnew => hnot.2 hnew.1⟩
  · intro step step' i j inst inst' hstep hstep' hi hj hsession hhead
    rcases List.mem_append.mp hstep' with hpast' | hlast'
    · rcases List.mem_append.mp hstep with hpast | hlast
      · exact h.unique hpast hpast' hi hj hsession hhead
      · rw [List.mem_singleton.mp hlast] at hi
        exact ((hfate hstep' hj).1.unique hb hd hr hi hsession.symm hhead.symm).symm
    · rw [List.mem_singleton.mp hlast'] at hj
      exact (hfate hstep hi).1.unique hb hd hr hj hsession hhead
  · intro step s id hstep hop hresponse
    rcases List.mem_append.mp hstep with hstep | hstep
    · exact h.queued hstep hop hresponse
    · obtain rfl := List.mem_singleton.mp hstep
      obtain rfl : op = .dispatch s id := hop
      have hqueued : (x.dispatch t s id).1 = .ok .queued := by
        change respond .dispatched (x.dispatch t s id).1 = _ at hresponse
        cases hresult : (x.dispatch t s id).1 with
        | error e => simp [respond, hresult] at hresponse
        | ok d => simpa [respond, hresult] using hresponse
      exact dispatch_queued h.coherent hqueued

theorem chronicle_run (t : Transport σ) (capacity : Nat) (transport : σ)
    (ops : List (Operation ω)) :
    Chronicle (history t (start (.new capacity) transport) ops)
      (run t (start (.new capacity) transport) ops).2 :=
  run_induction (chronicle_start capacity transport) (fun op h => h.perform op) ops

def Pending (x : Exchange ω σ) (i : InstanceId) (inst : Instance) : Prop :=
  x.broker.awaited? inst.session inst.token = some i ∧
    ∃ inst', x.broker.instances.get? i = some inst' ∧ inst'.head = inst.head

/-- The message went to the session's channel and says how the head was decided. -/
structure Conveys (past : List (Step ω σ)) (i : InstanceId) (inst : Instance) (send : Send) :
    Prop where
  channel : channelOf past inst.session = some send.channel
  opcode : send.message.opcode? =
    some (if decidedBy past inst.head i then Opcode.resultYou else Opcode.resultOther).code
  content : send.message.decode = .ok (.outcome inst.token (decidedBy past inst.head i)
    ((deciderOf past inst.head).getD 0) (verdictOf past inst.head))

/-- An instance that there ever was: it waits, or it left with its session, or it was told. -/
structure Recipient (past : List (Step ω σ)) (x : Exchange ω σ) (i : InstanceId) (inst : Instance) :
    Prop where
  one : ExactlyOne (Pending x i inst) (TornBefore past inst.session inst.head)
    (ResolvedWhileOpen past inst.session inst.head)
  unsent : ¬ResolvedWhileOpen past inst.session inst.head →
    resultsFor inst.session inst.head x.sends = []
  sent : ResolvedWhileOpen past inst.session inst.head →
    ∃ send, resultsFor inst.session inst.head x.sends = [send] ∧ Conveys past i inst send

theorem Conveys.of_due {send : Send} (hdue : Due past i inst send) : Conveys past i inst send :=
  ⟨hdue.channel, Message.opcode?_outcome hdue.message, Message.decode_outcome hdue.message⟩

theorem Chronicle.recipient (h : Chronicle past x) {step : Step ω σ} (hstep : step ∈ past)
    (hi : step.after.broker.instances.get? i = some inst) : Recipient past x i inst := by
  obtain ⟨hfate, hopen⟩ := h.fate hstep hi
  have hnot {inst'} (hi' : x.broker.instances.get? i = some inst')
      (hhead : inst'.head = inst.head) : inst.head ∉ x.resolved :=
    hhead ▸ h.docket.unresolved h.coherent hi'
  cases hfate with
  | @pending inst' hi' hcopy =>
    obtain ⟨htoken, hsession, hhead⟩ := Instance.copy_eq.mp hcopy
    have hunresolved := hnot hi' hhead
    have hclosed : ¬ResolvedWhileOpen past inst.session inst.head := fun hopen =>
      hunresolved (h.apart hopen).1
    refine ⟨.inl ⟨⟨?_, inst', hi', hhead⟩, fun htorn => ?_, hclosed⟩, fun _ => ?_,
      fun hopen => absurd hopen hclosed⟩
    · rw [← hsession, ← htoken]
      exact h.coherent.awaited?_of_instance hi'
    · obtain ⟨sess, hs⟩ := session_of_instance h.coherent hi'
      rw [hsession, (h.roll.attendance inst.session).absent_of_torn htorn.torn] at hs
      cases hs
    · exact h.docket.unsent hunresolved _
  | torn htorn hnone =>
    have hclosed : ¬ResolvedWhileOpen past inst.session inst.head := fun hopen =>
      (h.apart hopen).2 htorn
    refine ⟨.inr (.inl ⟨fun hpending => ?_, htorn, hclosed⟩), fun _ => hnone,
      fun hopen => absurd hopen hclosed⟩
    have habsent := (h.roll.attendance inst.session).absent_of_torn htorn.torn
    simp [Pending, Broker.awaited?, habsent] at hpending
  | told hresolved htorn hone hdue =>
    have hopen := hopen hresolved htorn
    refine ⟨.inr (.inr ⟨?_, htorn, hopen⟩), fun hclosed => absurd hopen hclosed,
      fun _ => ⟨_, hone, .of_due hdue⟩⟩
    rintro ⟨-, inst', hi', hhead⟩
    exact hnot hi' hhead hresolved

/-- All that was sent in a run, and to whom. -/
structure Deliveries (past : List (Step ω σ)) (x : Exchange ω σ) : Prop where
  queued {step : Step ω σ} {s : SessionId} {id : HeadId} : step ∈ past →
    step.operation = .dispatch s id → step.response = .dispatched .queued →
    ∃ i inst, step.before.broker.instances.get? i = none ∧
      step.after.broker.instances.get? i = some inst ∧ inst.session = s ∧ inst.head = id
  unique {step step' : Step ω σ} {i j : InstanceId} {inst inst' : Instance} : step ∈ past →
    step' ∈ past → step.after.broker.instances.get? i = some inst →
    step'.after.broker.instances.get? j = some inst' → inst.session = inst'.session →
    inst.head = inst'.head → i = j
  recipient {step : Step ω σ} {i : InstanceId} {inst : Instance} : step ∈ past →
    step.after.broker.instances.get? i = some inst → Recipient past x i inst
  only {send : Send} {token : UInt64} {you : Bool} {uid : UInt32} {verdict : Verdict} :
    send ∈ x.sends → send.message.decode = .ok (.outcome token you uid verdict) →
    ∃ step ∈ past, ∃ i inst, step.after.broker.instances.get? i = some inst ∧
      ResolvedWhileOpen past inst.session inst.head ∧
      resultsFor inst.session inst.head x.sends = [send]
  you (id : HeadId) : yous id x.sends ≤ 1
  completed {c : Completion ω} : c ∈ x.completions → c.verdict = verdictOf past c.head ∧
    c.decidedBy = deciderOf past c.head ∧ c.notified = notified c.head x.sends

theorem Chronicle.only (h : Chronicle past x) {send : Send} {token : UInt64} {you : Bool}
    {uid : UInt32} {verdict : Verdict} (hs : send ∈ x.sends)
    (hdecode : send.message.decode = .ok (.outcome token you uid verdict)) :
    ∃ step ∈ past, ∃ i inst, step.after.broker.instances.get? i = some inst ∧
      ResolvedWhileOpen past inst.session inst.head ∧
      resultsFor inst.session inst.head x.sends = [send] := by
  rcases h.source hs with ⟨s, id, e, -, hevent⟩ | ⟨step, hstep, i, inst, hi, hpurpose⟩
  · rw [hevent] at hdecode
    cases hdecode
  · have hmem : send ∈ resultsFor inst.session inst.head x.sends :=
      List.mem_filter.mpr ⟨hs, decide_eq_true hpurpose⟩
    have hrecipient := h.recipient hstep hi
    have hopen : ResolvedWhileOpen past inst.session inst.head := by
      by_contra hclosed
      rw [hrecipient.unsent hclosed] at hmem
      cases hmem
    obtain ⟨send', hone, -⟩ := hrecipient.sent hopen
    rw [hone, List.mem_singleton] at hmem
    exact ⟨step, hstep, i, inst, hi, hopen, hmem ▸ hone⟩

theorem deliveries_run (t : Transport σ) (capacity : Nat) (transport : σ)
    (ops : List (Operation ω)) :
    Deliveries (history t (start (.new capacity) transport) ops)
      (run t (start (.new capacity) transport) ops).2 where
  queued := (chronicle_run t capacity transport ops).queued
  unique := (chronicle_run t capacity transport ops).unique
  recipient := (chronicle_run t capacity transport ops).recipient
  only := (chronicle_run t capacity transport ops).only
  you := (chronicle_run t capacity transport ops).yous
  completed := (docket_run t capacity transport ops).completion

end Exchange

end Arbiter
