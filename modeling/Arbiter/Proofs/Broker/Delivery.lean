import Arbiter.Proofs.Broker.Attendance
import Arbiter.Proofs.Broker.Lifecycle

/-!
Results and those they are for. An instance waits until its session is torn down or its head is
resolved, whichever comes first. In the first case no result is ever sent for it, in the second one
is, on the session's channel, whatever became of the results for others; and no result is sent for
anything else.
-/

namespace Arbiter

def Instance.copy (inst : Instance) : UInt64 × SessionId × HeadId :=
  (inst.token, inst.session, inst.head)

theorem Instance.copy_eq {inst inst' : Instance} : inst.copy = inst'.copy ↔
    inst.token = inst'.token ∧ inst.session = inst'.session ∧ inst.head = inst'.head := by
  simp only [copy, Prod.mk.injEq]

section Past

variable {ω σ : Type} {past : List (Step ω σ)} {s : SessionId} {id : HeadId}

def TornBefore (past : List (Step ω σ)) (s : SessionId) (id : HeadId) : Prop :=
  ∃ step ∈ past, step.TearsDown s ∧ id ∉ step.before.resolved

def ResolvedWhileOpen (past : List (Step ω σ)) (s : SessionId) (id : HeadId) : Prop :=
  ∃ step ∈ past, id ∉ step.before.resolved ∧ id ∈ step.after.resolved ∧
    ∃ sess, step.after.broker.sessions.get? s = some sess

def decidedBy (past : List (Step ω σ)) (id : HeadId) (i : InstanceId) : Bool :=
  (answerFor past id).any (·.inst = i)

structure Due (past : List (Step ω σ)) (i : InstanceId) (inst : Instance) (send : Send) : Prop where
  channel : channelOf past inst.session = some send.channel
  message : Message.outcome inst.token (decidedBy past inst.head i)
    ((deciderOf past inst.head).getD 0) (verdictOf past inst.head) = .ok send.message

theorem TornBefore.torn (h : TornBefore past s id) : Torn past s := by
  obtain ⟨step, hstep, htears, -⟩ := h
  exact ⟨step, hstep, htears⟩

theorem tornBefore_snoc {step : Step ω σ} : TornBefore (past ++ [step]) s id ↔
    TornBefore past s id ∨ step.TearsDown s ∧ id ∉ step.before.resolved := by
  simp [TornBefore, or_and_right, exists_or]

theorem resolvedWhileOpen_snoc {step : Step ω σ} : ResolvedWhileOpen (past ++ [step]) s id ↔
    ResolvedWhileOpen past s id ∨ id ∉ step.before.resolved ∧ id ∈ step.after.resolved ∧
      ∃ sess, step.after.broker.sessions.get? s = some sess := by
  simp [ResolvedWhileOpen, or_and_right, exists_or]

theorem Recorded.decidedBy {h : Head ω} (hr : Recorded past id h) (i : InstanceId) :
    decidedBy past id i = h.decidedBy i := by
  rw [Arbiter.decidedBy, Head.decidedBy, ← hr.decider]
  cases answerFor past id <;> rfl

theorem Recorded.deciderUid {h : Head ω} (hr : Recorded past id h) :
    (Arbiter.deciderOf past id).getD 0 = h.deciderUid := by
  rw [hr.deciderOf]
  rfl

theorem Due.snoc {i : InstanceId} {inst : Instance} {step : Step ω σ}
    {send : Send} (hdue : Due past i inst send)
    (hopened : step.opened? inst.session = none) (haccepted : step.accepted? inst.head = none) :
    Due (past ++ [step]) i inst send := by
  have hanswer : answerFor (past ++ [step]) inst.head = answerFor past inst.head :=
    latest_snoc_of_none haccepted
  refine ⟨(latest_snoc_of_none hopened).trans hdue.channel, ?_⟩
  rw [decidedBy, deciderOf, verdictOf, hanswer]
  exact hdue.message

theorem Due.copy {i : InstanceId} {inst inst' : Instance} {send : Send}
    (hdue : Due past i inst send) (hcopy : inst.copy = inst'.copy) : Due past i inst' send := by
  obtain ⟨htoken, hsession, hhead⟩ := Instance.copy_eq.mp hcopy
  exact ⟨hsession ▸ hdue.channel, htoken ▸ hhead ▸ hdue.message⟩

end Past

namespace Exchange

variable {ω σ : Type} {past : List (Step ω σ)} {x y : Exchange ω σ} {t : Transport σ}
  {i : InstanceId} {inst : Instance}

theorem resultsFor_eq_nil {s : SessionId} {id : HeadId} {sends : List Send}
    (h : ∀ send ∈ sends, send.purpose.concludes id = false) : resultsFor s id sends = [] := by
  refine List.filter_eq_nil_iff.mpr fun send hs hpurpose => ?_
  have hconcludes := h send hs
  rw [of_decide_eq_true hpurpose] at hconcludes
  simp [Purpose.concludes] at hconcludes

theorem Quiet.resultsFor (h : Quiet x y) (s : SessionId) (id : HeadId) :
    resultsFor s id y.sends = resultsFor s id x.sends := by
  obtain ⟨new, hnew, hevents⟩ := h.sends
  rw [hnew, resultsFor_append, resultsFor_eq_nil fun send hs => hevents send hs id,
    List.append_nil]

theorem Docket.unsent {id : HeadId} (hd : Docket past x) (hnot : id ∉ x.resolved) (s : SessionId) :
    resultsFor s id x.sends = [] :=
  resultsFor_eq_nil fun _ hs => Bool.eq_false_iff.mpr fun h => hnot (hd.concluded hs h)

theorem Docket.unresolved (hd : Docket past x) (hb : x.broker.Coherent)
    (hi : x.broker.instances.get? i = some inst) : inst.head ∉ x.resolved := by
  obtain ⟨h, hh, -⟩ := hb.listed hi
  exact ((hd.standing inst.head).recorded hh).2.2

theorem session_of_instance (hb : x.broker.Coherent) (hi : x.broker.instances.get? i = some inst) :
    ∃ sess, x.broker.sessions.get? inst.session = some sess := by
  obtain ⟨sess, hs, -⟩ := Option.bind_eq_some_iff.mp (hb.awaited?_of_instance hi)
  exact ⟨sess, hs⟩

inductive Fate (past : List (Step ω σ)) (x : Exchange ω σ) (i : InstanceId) (inst : Instance) :
    Prop where
  | pending {inst'} (hi : x.broker.instances.get? i = some inst') (hcopy : inst'.copy = inst.copy)
  | torn (htorn : TornBefore past inst.session inst.head)
      (hnone : resultsFor inst.session inst.head x.sends = [])
  | told {send} (hresolved : inst.head ∈ x.resolved)
      (htorn : ¬TornBefore past inst.session inst.head)
      (hone : resultsFor inst.session inst.head x.sends = [send]) (hdue : Due past i inst send)

theorem Offer.copy {id : HeadId} (ho : Offer t id x y) (hb : x.broker.Coherent)
    (hi : x.broker.instances.get? i = some inst) : y.broker.instances.get? i = some inst := by
  cases ho with
  | sent => exact hi
  | queued =>
    refine (Table.get?_insert ..).trans ((if_neg ?_).trans hi)
    rintro rfl
    rw [hb.instance_fresh (i := ⟨x.broker.nextId⟩) (Nat.le_refl _)] at hi
    cases hi
  | lost => exact hi

theorem offers_copy {id : HeadId} (h : Relation.ReflTransGen (Offer t id) x y)
    (hb : x.broker.Coherent) (hi : x.broker.instances.get? i = some inst) :
    y.broker.Coherent ∧ y.broker.instances.get? i = some inst := by
  induction h with
  | refl => exact ⟨hb, hi⟩
  | tail _ hoffer ih => exact ⟨hoffer.coherent ih.1, hoffer.copy ih.1 ih.2⟩

section Effect

variable {op : Operation ω} {r : Response} {ids : List HeadId}

theorem Effect.copy (he : Effect t x op r y ids) (hb : x.broker.Coherent)
    (hi : x.broker.instances.get? i = some inst) :
    (∃ inst', y.broker.instances.get? i = some inst' ∧ inst'.copy = inst.copy) ∨
      op = .teardown inst.session ∧ ∃ report, r = .tornDown report := by
  cases he with
  | offered _ _ hy => exact .inl ⟨inst, (offers_copy hy hb hi).2, rfl⟩
  | @answered s token sess j inst' h result ready verdict delegate hs hpending hj =>
    refine .inl ?_
    rw [withBroker, Broker.instances_recordAnswer hj]
    split
    · subst i
      obtain rfl : inst = inst' := Option.some.inj (hi.symm.trans hj)
      exact ⟨inst.giveVerdict, rfl, rfl⟩
    · exact ⟨inst, hi, rfl⟩
  | @tornDown s sess hs =>
    by_cases hsession : inst.session = s
    · exact .inr ⟨hsession ▸ rfl, _, rfl⟩
    · refine .inl ⟨inst, ?_, rfl⟩
      simp only [withBroker, (closing_spec hb hs).1.instances, hi]
      simp [Option.filter_some, hsession]
  | _ => exact .inl ⟨inst, hi, rfl⟩

theorem Effect.copy_of_ready (he : Effect t x op r y ids) (hb : x.broker.Coherent)
    (hne : ids ≠ []) (hi : y.broker.instances.get? i = some inst) :
    ∃ inst', x.broker.instances.get? i = some inst' ∧ inst'.copy = inst.copy := by
  cases he with
  | @answered s token sess j inst' h result ready verdict delegate hs hpending hj =>
    rw [withBroker, Broker.instances_recordAnswer hj] at hi
    split at hi
    · subst i
      cases hi
      exact ⟨inst', hj, rfl⟩
    · exact ⟨inst, hi, rfl⟩
  | broadcast => exact ⟨inst, hi, rfl⟩
  | tornDown hs =>
    simp only [withBroker, (closing_spec hb hs).1.instances] at hi
    exact ⟨inst, (Option.filter_eq_some_iff.mp hi).1, rfl⟩
  | _ => exact absurd rfl hne

theorem Effect.opened?_of_issued (he : Effect t x op r y ids) {s : SessionId}
    (hlt : s.number < x.broker.nextId) (z : Exchange ω σ) :
    Step.opened? ⟨x, op, r, z⟩ s = none := by
  cases he with
  | refused op => cases op <;> rfl
  | opened =>
    refine if_neg ?_
    rintro rfl
    exact Nat.lt_irrefl _ hlt
  | registered hop => obtain ⟨_, rfl | rfl⟩ := hop <;> rfl
  | offered _ hop => obtain rfl | ⟨_, rfl⟩ := hop <;> rfl
  | _ => rfl

theorem Docket.accepted?_of_resolved (hd : Docket past x) (hb : x.broker.Coherent) {id : HeadId}
    (hid : id ∈ x.resolved) (op : Operation ω) (r : Response) (z : Exchange ω σ) :
    Step.accepted? ⟨x, op, r, z⟩ id = none := by
  cases op with
  | answer s token verdict delegate =>
    cases r with
    | answered result =>
      rw [Option.eq_none_iff_forall_ne_some]
      intro a ha
      simp only [Step.accepted?] at ha
      split at ha
      · cases ha
      · obtain ⟨sess, hs, ha⟩ := Option.bind_eq_some_iff.mp ha
        obtain ⟨j, hj, ha⟩ := Option.bind_eq_some_iff.mp ha
        obtain ⟨inst, hi, ha⟩ := Option.bind_eq_some_iff.mp ha
        split at ha
        · rename_i hhead
          exact hd.unresolved hb hi (hhead ▸ hid)
        · cases ha
    | _ => rfl
  | _ => rfl

theorem Effect.fate (he : Effect t x op r y ids) (hb : x.broker.Coherent) (hd : Docket past x)
    (hr : Roll past x) (hf : Fate past x i inst) (z : Exchange ω σ) :
    Fate (past ++ [⟨x, op, r, z⟩]) y i inst := by
  have hquiet := he.quiet hb
  cases hf with
  | pending hi hcopy =>
    rcases he.copy hb hi with ⟨inst', hi', hcopy'⟩ | ⟨hop, hresponse⟩
    · exact .pending hi' (hcopy'.trans hcopy)
    · -- The head is still there, whatever the same teardown resolves next.
      have hunresolved := hd.unresolved hb hi
      obtain ⟨-, hsession, hhead⟩ := Instance.copy_eq.mp hcopy
      rw [hsession] at hop
      rw [hhead] at hunresolved
      refine .torn (tornBefore_snoc.mpr (.inr ⟨⟨hop, hresponse⟩, hunresolved⟩)) ?_
      rw [hquiet.resultsFor, hd.unsent hunresolved]
  | torn htorn hnone =>
    exact .torn (tornBefore_snoc.mpr (.inl htorn)) ((hquiet.resultsFor ..).trans hnone)
  | told hresolved htorn hone hdue =>
    refine .told (hquiet.resolved ▸ hresolved) ?_ ((hquiet.resultsFor ..).trans hone) ?_
    · rw [tornBefore_snoc, not_or]
      exact ⟨htorn, fun h => h.2 hresolved⟩
    · exact hdue.snoc (he.opened?_of_issued (hr.fresh hdue.channel) z)
        (hd.accepted?_of_resolved hb hresolved op r z)

end Effect

theorem Tells.due {id : HeadId} {h : Head ω} {send : Send}
    (htells : Tells x.broker h (i, inst) send) (hrecorded : Recorded past id h)
    (hr : Roll past x) (hhead : inst.head = id) : Due past i inst send := by
  obtain ⟨sess, hs, hchannel⟩ := htells.channel
  refine ⟨?_, ?_⟩
  · rw [hchannel]
    exact ((hr.attendance inst.session).of_session hs).1
  · rw [hhead, hrecorded.decidedBy, hrecorded.deciderUid, hrecorded.outcome]
    exact htells.message

theorem Broadcast.resultsFor_of_ne {id id' : HeadId} {h : Head ω} {new : List Send}
    (hx : Broadcast id h x y new) (hb : x.broker.Coherent) (hh : x.broker.heads.get? id = some h)
    (hne : id ≠ id') (s : SessionId) : resultsFor s id' y.sends = resultsFor s id' x.sends := by
  have hnew : resultsFor s id' new = [] :=
    resultsFor_eq_nil fun _ hs => hx.not_concludes hb hh hne hs
  rw [hx.sends, resultsFor_append, hnew, List.append_nil]

theorem Broadcast.fate {id : HeadId} {h : Head ω} {new : List Send} (hx : Broadcast id h x y new)
    (hb : x.broker.Coherent) (hh : x.broker.heads.get? id = some h) (hd : Docket past x)
    (hr : Roll past x) (hf : Fate past x i inst) : Fate past y i inst := by
  obtain ⟨hrecorded, -, hunresolved⟩ := (hd.standing id).recorded hh
  have hresolved {id'} (hid : id' ∈ x.resolved) : id' ∈ y.resolved ∧ id ≠ id' := by
    rw [hx.resolved]
    exact ⟨List.mem_append_left _ hid, fun h => hunresolved (h ▸ hid)⟩
  cases hf with
  | @pending inst' hi hcopy =>
    by_cases hmem : i ∈ h.instances
    · have howed := Owed.of_row hb hh (Table.mem_rows.mpr ⟨hmem, hi⟩)
      obtain ⟨send, hsend, htells⟩ := hx.resultsFor_of_mem hb hh hi hmem
      obtain ⟨sess, hs, -⟩ := htells.channel
      have hdue := (htells.due hrecorded hr howed.head).copy hcopy
      have hhead : inst'.head = id := howed.head
      obtain ⟨-, hsession, hhead'⟩ := Instance.copy_eq.mp hcopy
      rw [hsession] at hsend hs
      rw [hhead'] at hhead
      refine .told ?_ (fun htorn => ?_) ?_ hdue
      · rw [hx.resolved, hhead]
        exact List.mem_append_right _ (List.mem_singleton_self id)
      · exact ((hr.attendance inst.session).of_session hs).2 htorn.torn
      · rw [hhead, hx.sends, resultsFor_append, hd.unsent hunresolved, List.nil_append, hsend]
    · exact .pending (by rw [hx.instances, if_neg hmem, hi]) hcopy
  | torn htorn hnone =>
    refine .torn htorn ?_
    by_cases hid : id = inst.head
    · rw [← hid] at hnone ⊢
      rw [hx.sends, resultsFor_append, hnone, List.nil_append]
      -- The session is gone, so no instance of the head can be its.
      refine hx.resultsFor_of_forall hb hh fun j _ inst' hj hsession => ?_
      obtain ⟨sess, hs⟩ := session_of_instance hb hj
      rw [hsession, (hr.attendance inst.session).absent_of_torn htorn.torn] at hs
      cases hs
    · rw [hx.resultsFor_of_ne hb hh hid, hnone]
  | told hmem htorn hone hdue =>
    obtain ⟨hmem, hne⟩ := hresolved hmem
    exact .told hmem htorn ((hx.resultsFor_of_ne hb hh hne _).trans hone) hdue

theorem fate_perform (hb : x.broker.Coherent) (hd : Docket past x) (hr : Roll past x)
    (hf : Fate past x i inst) (op : Operation ω) :
    Fate (past ++ [x.step t op]) (x.perform t op).2 i inst := by
  refine (perform_induction (P := fun z => Docket (past ++ [x.step t op]) z ∧
    Roll (past ++ [x.step t op]) z ∧ Fate (past ++ [x.step t op]) z i inst) hb op ?_ ?_).2.2
  · intro y ids he
    exact ⟨he.docket hb hd _, he.roll hb hr _, he.fate hb hd hr hf _⟩
  · rintro id h y z new hb hh hx ⟨hd, hr, hf⟩
    exact ⟨hx.docket hb hh hd, hx.roll hr, hx.fate hb hh hd hr hf⟩

end Exchange

end Arbiter
