import Arbiter.Proofs.Broker.History

/-!
What a history says of each head, held against the broker. A head that was created is present,
abandoned or resolved; as long as it is present it keeps what it was created with, who waits for it
and the last answer that counted, and the completions are those of the resolved heads in their
order.
-/

namespace Arbiter

def Head.account {ω : Type} (h : Head ω) : Message × Option ω × Option Decider × Verdict :=
  (h.message, h.waiter, h.decider, h.outcome)

def Purpose.concludes (p : Purpose) (id : HeadId) : Bool :=
  match p with
  | .outcome _ head => head = id
  | _ => false

def notified (id : HeadId) (sends : List Send) : Nat :=
  sends.countP fun send => send.purpose.concludes id && send.result.isOk

theorem notified_append (id : HeadId) (sends sends' : List Send) :
    notified id (sends ++ sends') = notified id sends + notified id sends' :=
  List.countP_append ..

theorem notified_of_concludes {id : HeadId} {sends : List Send}
    (h : ∀ send ∈ sends, send.purpose.concludes id = true) :
    notified id sends = sends.countP (·.result.isOk) :=
  List.countP_congr fun send hs => by simp [h send hs]

theorem notified_eq_zero {id : HeadId} {sends : List Send}
    (h : ∀ send ∈ sends, send.purpose.concludes id = false) : notified id sends = 0 :=
  List.countP_eq_zero.mpr fun send hs => by simp [h send hs]

section Past

variable {ω σ : Type} {past past' : List (Step ω σ)} {id : HeadId}

def completionOf (past : List (Step ω σ)) (sends : List Send) (id : HeadId) :
    Option (Completion ω) :=
  (waiterOf past id).bind fun waiter => (createdAs past id).map fun m =>
    ⟨waiter, id, m, verdictOf past id, deciderOf past id, notified id sends⟩

theorem verdictOf_snoc {step : Step ω σ} (h : step.accepted? id = none) :
    verdictOf (past ++ [step]) id = verdictOf past id :=
  congrArg (fun a => (a.map Accepted.verdict).getD .noDecision) (latest_snoc_of_none h)

structure Step.Silent (step : Step ω σ) (id : HeadId) : Prop where
  created : step.created? id = none
  waiter : step.waiter? id = none
  answer : step.accepted? id = none
  abandoned : ¬step.Abandons id

def Operation.concernsHeads : Operation ω → Bool
  | .createHead .. | .setWaiter .. | .abandon _ | .answer .. => true
  | _ => false

theorem Step.not_abandons {step : Step ω σ} (h : step.operation ≠ .abandon id) :
    ¬step.Abandons id :=
  fun ha => h ha.1

theorem Step.silent_of_operation {step : Step ω σ} (h : step.operation.concernsHeads = false)
    (id : HeadId) : step.Silent id := by
  obtain ⟨before, operation, response, after⟩ := step
  cases operation with
  | createHead | setWaiter | abandon | answer => simp [Operation.concernsHeads] at h
  | _ => exact ⟨rfl, rfl, rfl, not_abandons (by simp)⟩

theorem Step.silent_of_refused {step : Step ω σ} {cause : Refusal}
    (h : step.response = .refused cause) (id : HeadId) : step.Silent id := by
  obtain ⟨before, operation, response, after⟩ := step
  obtain rfl : response = .refused cause := h
  cases operation <;> exact ⟨rfl, rfl, rfl, by simp [Abandons]⟩

structure Agree (past past' : List (Step ω σ)) (id : HeadId) : Prop where
  created : createdAs past' id = createdAs past id
  waiter : waiterOf past' id = waiterOf past id
  answer : answerFor past' id = answerFor past id
  abandoned : Abandoned past' id ↔ Abandoned past id

theorem Agree.refl (past : List (Step ω σ)) (id : HeadId) : Agree past past id :=
  ⟨rfl, rfl, rfl, .rfl⟩

theorem abandoned_snoc {step : Step ω σ} :
    Abandoned (past ++ [step]) id ↔ Abandoned past id ∨ step.Abandons id := by
  simp [Abandoned, or_and_right, exists_or]

theorem Step.Silent.agree {step : Step ω σ} (h : step.Silent id) :
    Agree past (past ++ [step]) id where
  created := latest_snoc_of_none h.created
  waiter := latest_snoc_of_none h.waiter
  answer := latest_snoc_of_none h.answer
  abandoned := by simp only [abandoned_snoc, h.abandoned, or_false]

theorem Agree.verdictOf (h : Agree past past' id) : verdictOf past' id = verdictOf past id := by
  rw [Arbiter.verdictOf, h.answer, Arbiter.verdictOf]

theorem Agree.deciderOf (h : Agree past past' id) : deciderOf past' id = deciderOf past id := by
  rw [Arbiter.deciderOf, h.answer, Arbiter.deciderOf]

theorem Agree.completionOf (h : Agree past past' id) {sends sends' : List Send}
    (hsends : notified id sends' = notified id sends) :
    completionOf past' sends' id = completionOf past sends id := by
  simp only [Arbiter.completionOf, h.waiter, h.created, h.verdictOf, h.deciderOf, hsends]

structure Recorded (past : List (Step ω σ)) (id : HeadId) (h : Head ω) : Prop where
  event : ∃ e, h.message.decode = .ok (.event e)
  created : createdAs past id = some h.message
  waiter : waiterOf past id = h.waiter
  decider : (answerFor past id).map (fun a => ⟨a.inst, a.uid⟩) = h.decider
  outcome : verdictOf past id = h.outcome

theorem Recorded.congr {h h' : Head ω} (hr : Recorded past id h) (hagree : Agree past past' id)
    (hsame : h'.account = h.account) : Recorded past' id h' := by
  simp only [Head.account, Prod.mk.injEq] at hsame
  obtain ⟨hmessage, hwaiter, hdecider, houtcome⟩ := hsame
  exact {
    event := by rw [hmessage]; exact hr.event
    created := by rw [hagree.created, hr.created, hmessage]
    waiter := by rw [hagree.waiter, hr.waiter, hwaiter]
    decider := by rw [hagree.answer, hr.decider, hdecider]
    outcome := by rw [hagree.verdictOf, hr.outcome, houtcome] }

theorem Recorded.deciderOf {h : Head ω} (hr : Recorded past id h) :
    deciderOf past id = h.decider.map Decider.uid := by
  rw [← hr.decider, Option.map_map]
  rfl

end Past

namespace Exchange

variable {ω σ : Type} {past past' : List (Step ω σ)} {x y : Exchange ω σ}

/-- The four conditions a head id can be in; no two of them hold at once. -/
inductive Standing (past : List (Step ω σ)) (x : Exchange ω σ) (id : HeadId) : Prop where
  | unissued (habsent : x.broker.heads.get? id = none) (hcreated : createdAs past id = none)
      (hwaiter : waiterOf past id = none) (hanswer : answerFor past id = none)
      (habandoned : ¬Abandoned past id) (hresolved : id ∉ x.resolved)
  | present {h} (hh : x.broker.heads.get? id = some h) (hrecorded : Recorded past id h)
      (habandoned : ¬Abandoned past id) (hresolved : id ∉ x.resolved)
  | abandoned {m} (habsent : x.broker.heads.get? id = none) (hcreated : createdAs past id = some m)
      (habandoned : Abandoned past id) (hresolved : id ∉ x.resolved)
  | resolved {m} (habsent : x.broker.heads.get? id = none) (hcreated : createdAs past id = some m)
      (habandoned : ¬Abandoned past id) (hresolved : id ∈ x.resolved)

theorem Standing.congr {id : HeadId} (hs : Standing past x id) (hagree : Agree past past' id)
    (hheads : (y.broker.heads.get? id).map Head.account =
      (x.broker.heads.get? id).map Head.account)
    (hresolved : id ∈ y.resolved ↔ id ∈ x.resolved) : Standing past' y id := by
  have hnone (habsent : x.broker.heads.get? id = none) : y.broker.heads.get? id = none := by
    rw [habsent, Option.map_none, Option.map_eq_none_iff] at hheads
    exact hheads
  cases hs with
  | unissued habsent hcreated hwaiter hanswer habandoned hnot =>
    exact .unissued (hnone habsent) (hagree.created.trans hcreated) (hagree.waiter.trans hwaiter)
      (hagree.answer.trans hanswer) (mt hagree.abandoned.mp habandoned) (mt hresolved.mp hnot)
  | present hh hrecorded habandoned hnot =>
    rw [hh, Option.map_some, Option.map_eq_some_iff] at hheads
    obtain ⟨h', hh', hsame⟩ := hheads
    exact .present hh' (hrecorded.congr hagree hsame) (mt hagree.abandoned.mp habandoned)
      (mt hresolved.mp hnot)
  | abandoned habsent hcreated habandoned hnot =>
    exact .abandoned (hnone habsent) (hagree.created.trans hcreated)
      (hagree.abandoned.mpr habandoned) (mt hresolved.mp hnot)
  | resolved habsent hcreated habandoned hmem =>
    exact .resolved (hnone habsent) (hagree.created.trans hcreated)
      (mt hagree.abandoned.mp habandoned) (hresolved.mpr hmem)

theorem Standing.recorded {id : HeadId} {h : Head ω} (hs : Standing past x id)
    (hh : x.broker.heads.get? id = some h) :
    Recorded past id h ∧ ¬Abandoned past id ∧ id ∉ x.resolved := by
  cases hs with
  | present hh' hrecorded habandoned hresolved =>
    rw [hh] at hh'
    cases hh'
    exact ⟨hrecorded, habandoned, hresolved⟩
  | unissued habsent | abandoned habsent | resolved habsent => simp [habsent] at hh

structure Docket (past : List (Step ω σ)) (x : Exchange ω σ) : Prop where
  standing (id) : Standing past x id
  fresh {id m} : createdAs past id = some m → id.number < x.broker.nextId
  once : x.resolved.Nodup
  completed : x.completions = x.resolved.filterMap (completionOf past x.sends)
  concluded {send id} : send ∈ x.sends → send.purpose.concludes id = true → id ∈ x.resolved

theorem docket_start (capacity : Nat) (transport : σ) :
    Docket [] (start (.new capacity : Broker ω) transport) where
  standing _ := .unissued rfl rfl rfl rfl (by simp [Abandoned]) List.not_mem_nil
  fresh h := by cases h
  once := List.nodup_nil
  completed := rfl
  concluded h := by cases h

structure Quiet (x y : Exchange ω σ) : Prop where
  nextId : x.broker.nextId ≤ y.broker.nextId
  resolved : y.resolved = x.resolved
  completions : y.completions = x.completions
  sends : ∃ new, y.sends = x.sends ++ new ∧
    ∀ send ∈ new, ∀ id, send.purpose.concludes id = false

theorem Quiet.refl (x : Exchange ω σ) : Quiet x x :=
  ⟨Nat.le_refl _, rfl, rfl, [], (List.append_nil _).symm, by simp⟩

theorem Quiet.withBroker (x : Exchange ω σ) {b : Broker ω} (h : x.broker.nextId ≤ b.nextId) :
    Quiet x (x.withBroker b) :=
  ⟨h, rfl, rfl, [], (List.append_nil _).symm, by simp⟩

theorem Quiet.trans {z : Exchange ω σ} (hxy : Quiet x y) (hyz : Quiet y z) : Quiet x z := by
  obtain ⟨new, hnew, hevents⟩ := hxy.sends
  obtain ⟨new', hnew', hevents'⟩ := hyz.sends
  refine ⟨Nat.le_trans hxy.nextId hyz.nextId, hyz.resolved.trans hxy.resolved,
    hyz.completions.trans hxy.completions, new ++ new', ?_, fun send hs => ?_⟩
  · rw [hnew', hnew, List.append_assoc]
  · exact (List.mem_append.mp hs).elim (hevents send) (hevents' send)

theorem Offer.quiet {t : Transport σ} {id : HeadId} (h : Offer t id x y) : Quiet x y := by
  cases h with
  | sent =>
    refine ⟨Nat.le_refl _, rfl, rfl, _, send_sends .., fun send hs id' => ?_⟩
    rw [List.mem_singleton.mp hs]
    rfl
  | queued => exact .withBroker x (Nat.le_succ _)
  | lost => exact .withBroker x (Nat.le_refl _)

theorem offers_quiet {t : Transport σ} {id : HeadId} (h : Relation.ReflTransGen (Offer t id) x y) :
    Quiet x y := by
  induction h with
  | refl => exact .refl x
  | tail _ hoffer ih => exact ih.trans hoffer.quiet

theorem Closed.account {s : SessionId} {b b' : Broker ω} {ready : List HeadId}
    (hc : Closed s b b' ready) (hb : b.Coherent) (id : HeadId) :
    (b'.heads.get? id).map Head.account = (b.heads.get? id).map Head.account := by
  by_cases hheld : ∃ i inst, b.instances.get? i = some inst ∧ inst.session = s ∧ inst.head = id
  · obtain ⟨i, inst, hi, hsession, rfl⟩ := hheld
    obtain ⟨h, hh, -⟩ := hb.listed hi
    rw [hc.touched hi hsession hh, hh, Option.map_some, Option.map_some]
    simp only [Head.account, withdrawInstance, Head.outcome]
    split
    · rfl
    · simp only
      split <;> rfl
  · rw [hc.untouched fun i inst hi hsession hhead => hheld ⟨i, inst, hi, hsession, hhead⟩]

theorem Offer.account {t : Transport σ} {id : HeadId} (ho : Offer t id x y) (id' : HeadId) :
    (y.broker.heads.get? id').map Head.account = (x.broker.heads.get? id').map Head.account := by
  cases ho with
  | sent => rfl
  | lost => rfl
  | queued => exact Table.map_get?_modify _ _ _ fun _ => rfl

theorem offers_account {t : Transport σ} {id : HeadId}
    (h : Relation.ReflTransGen (Offer t id) x y) (id' : HeadId) :
    (y.broker.heads.get? id').map Head.account = (x.broker.heads.get? id').map Head.account := by
  induction h with
  | refl => rfl
  | tail _ hoffer ih => rw [hoffer.account, ih]

namespace Effect

variable {t : Transport σ} {op : Operation ω} {r : Response} {ids : List HeadId}

theorem quiet (he : Effect t x op r y ids) (hb : x.broker.Coherent) : Quiet x y := by
  cases he with
  | refused => exact .refl x
  | opened => exact .withBroker x (Nat.le_succ _)
  | registered => exact .withBroker x (Nat.le_refl _)
  | created => exact .withBroker x (Nat.le_succ _)
  | waiterSet => exact .withBroker x (Nat.le_refl _)
  | abandoned => exact .withBroker x (Nat.le_refl _)
  | offered _ _ hy => exact offers_quiet hy
  | duplicate => exact .refl x
  | answered => exact .withBroker x (Nat.le_refl _)
  | absent => exact .refl x
  | broadcast => exact .refl x
  | tornDown hs => exact .withBroker x (Nat.le_of_eq (closing_spec hb hs).1.nextId.symm)

end Effect

theorem nextId_perform {t : Transport σ} (hb : x.broker.Coherent) (op : Operation ω) :
    x.broker.nextId ≤ (x.perform t op).2.broker.nextId :=
  perform_induction (P := fun z => x.broker.nextId ≤ z.broker.nextId) hb op
    (fun he => (he.quiet hb).nextId) fun _ _ hx hle => hx.nextId ▸ hle

theorem Docket.change (hd : Docket past x) (hquiet : Quiet x y)
    (hids : ∀ id, (Agree past past' id ∧ (y.broker.heads.get? id).map Head.account =
        (x.broker.heads.get? id).map Head.account) ∨
      Standing past' y id ∧ id ∉ x.resolved ∧ id.number < y.broker.nextId) : Docket past' y := by
  obtain ⟨new, hnew, hevents⟩ := hquiet.sends
  exact {
    standing := fun id => by
      rcases hids id with ⟨hagree, hheads⟩ | ⟨hstanding, -⟩
      · exact (hd.standing id).congr hagree hheads (by rw [hquiet.resolved])
      · exact hstanding
    fresh := fun {id m} hm => by
      rcases hids id with ⟨hagree, -⟩ | ⟨-, -, hlt⟩
      · exact Nat.lt_of_lt_of_le (hd.fresh (hagree.created ▸ hm)) hquiet.nextId
      · exact hlt
    once := hquiet.resolved ▸ hd.once
    completed := by
      rw [hquiet.completions, hquiet.resolved, hd.completed]
      refine List.filterMap_congr fun id hid => ?_
      rcases hids id with ⟨hagree, -⟩ | ⟨-, hnot, -⟩
      · refine (hagree.completionOf ?_).symm
        rw [hnew, notified_append, notified_eq_zero fun send hs => hevents send hs id, Nat.add_zero]
      · exact absurd hid hnot
    concluded := fun {send id} hs hconcludes => by
      rw [hnew, List.mem_append] at hs
      rw [hquiet.resolved]
      rcases hs with hs | hs
      · exact hd.concluded hs hconcludes
      · simp [hevents send hs id] at hconcludes }

section Effect

variable {t : Transport σ} {ids : List HeadId}

theorem Docket.silent (hd : Docket past x) (hquiet : Quiet x y) {step : Step ω σ}
    (hsilent : ∀ id, step.Silent id)
    (hheads : ∀ id, (y.broker.heads.get? id).map Head.account =
      (x.broker.heads.get? id).map Head.account) : Docket (past ++ [step]) y :=
  hd.change hquiet fun id => .inl ⟨(hsilent id).agree, hheads id⟩

theorem docket_created (hd : Docket past x) {m : Message} {e : Event} (waiter : Option ω)
    (hm : m.decode = .ok (.event e)) (z : Exchange ω σ) :
    Docket (past ++ [⟨x, .createHead m waiter, .created ⟨x.broker.nextId⟩, z⟩])
      (x.withBroker { x.broker with
        heads := x.broker.heads.insert ⟨x.broker.nextId⟩ (.new m e waiter)
        nextId := x.broker.nextId + 1 }) := by
  refine hd.change (.withBroker x (Nat.le_succ _)) fun id => ?_
  by_cases hid : id = ⟨x.broker.nextId⟩
  · refine .inr ?_
    cases hd.standing id with
    | unissued habsent hcreated hwaiter hanswer habandoned hresolved =>
      rw [hid] at *
      refine ⟨.present (h := .new m e waiter) ?_ ?_ ?_ hresolved, hresolved, Nat.lt_succ_self _⟩
      · exact (Table.get?_insert ..).trans (if_pos rfl)
      · refine ⟨⟨e, hm⟩, latest_snoc_of_some (if_pos rfl), ?_,
          (congrArg (Option.map _) (latest_snoc_of_none rfl)).trans ?_,
          (verdictOf_snoc rfl).trans ?_⟩
        · refine (latest_snoc ..).trans ?_
          rw [show latest _ past = none from hwaiter, Option.or_none]
          exact if_pos rfl
        · exact congrArg (Option.map _) hanswer
        · rw [verdictOf, hanswer]
          rfl
      · rw [abandoned_snoc, not_or]
        exact ⟨habandoned, Step.not_abandons (by simp)⟩
    | present _ hrecorded =>
      exact absurd (hd.fresh hrecorded.created) (by simp [hid])
    | abandoned _ hcreated | resolved _ hcreated =>
      exact absurd (hd.fresh hcreated) (by simp [hid])
  · have hne : (⟨x.broker.nextId⟩ : HeadId) ≠ id := fun h => hid h.symm
    refine .inl ⟨Step.Silent.agree
      ⟨if_neg hne, if_neg hne, rfl, Step.not_abandons (by simp)⟩, ?_⟩
    simp only [withBroker, Table.get?_insert, if_neg hid]

theorem docket_waiterSet (hd : Docket past x) {id : HeadId} {h : Head ω} (waiter : ω)
    (hh : x.broker.heads.get? id = some h) (z : Exchange ω σ) :
    Docket (past ++ [⟨x, .setWaiter id waiter, .done, z⟩])
      (x.withBroker (x.broker.modifyHead id fun h => { h with waiter := some waiter })) := by
  refine hd.change (.withBroker x (Nat.le_refl _)) fun id' => ?_
  by_cases hid : id' = id
  · subst id'
    obtain ⟨hrecorded, habandoned, hresolved⟩ := (hd.standing id).recorded hh
    refine .inr ⟨.present ((Table.get?_modify_of_get? hh _ id).trans (if_pos rfl)) ?_ ?_ hresolved,
      hresolved, hd.fresh hrecorded.created⟩
    · exact ⟨hrecorded.event, (latest_snoc_of_none rfl).trans hrecorded.created,
        latest_snoc_of_some (if_pos rfl),
        (congrArg (Option.map _) (latest_snoc_of_none rfl)).trans hrecorded.decider,
        (verdictOf_snoc rfl).trans hrecorded.outcome⟩
    · rw [abandoned_snoc, not_or]
      exact ⟨habandoned, Step.not_abandons (by simp)⟩
  · have hne : id ≠ id' := fun h => hid h.symm
    refine .inl ⟨Step.Silent.agree ⟨rfl, if_neg hne, rfl, Step.not_abandons (by simp)⟩, ?_⟩
    simp only [withBroker, Broker.modifyHead, Table.get?_modify, if_neg hid]

theorem docket_abandoned (hd : Docket past x) {id : HeadId} {h : Head ω}
    (hh : x.broker.heads.get? id = some h) (z : Exchange ω σ) :
    Docket (past ++ [⟨x, .abandon id, .abandoned h.message, z⟩])
      (x.withBroker { x.broker with heads := x.broker.heads.erase id }) := by
  refine hd.change (.withBroker x (Nat.le_refl _)) fun id' => ?_
  by_cases hid : id' = id
  · subst id'
    obtain ⟨hrecorded, -, hresolved⟩ := (hd.standing id).recorded hh
    exact .inr ⟨.abandoned ((Table.get?_erase ..).trans (if_pos rfl))
      ((latest_snoc_of_none rfl).trans hrecorded.created)
      (abandoned_snoc.mpr (.inr ⟨rfl, _, rfl⟩)) hresolved, hresolved, hd.fresh hrecorded.created⟩
  · refine .inl ⟨Step.Silent.agree ⟨rfl, rfl, rfl, fun h => ?_⟩, ?_⟩
    · exact hid (Operation.abandon.inj h.1).symm
    · simp only [withBroker, Table.get?_erase, if_neg hid]

theorem docket_answered (hd : Docket past x) {s : SessionId} {token : UInt64} {sess : Session}
    {i : InstanceId} {inst : Instance} {h : Head ω} {result : Answer} (verdict : Verdict)
    (delegate : Bool) (hs : x.broker.sessions.get? s = some sess)
    (hpending : sess.pending.get? token = some i) (hi : x.broker.instances.get? i = some inst)
    (hh : x.broker.heads.get? inst.head = some h) (hresult : result ≠ .duplicate)
    (z : Exchange ω σ) :
    Docket (past ++ [⟨x, .answer s token verdict delegate, .answered result, z⟩])
      (x.withBroker (x.broker.recordAnswer i inst h verdict sess.uid)) := by
  -- The state before the step is the one the answer was judged by.
  have haccepted (id) : Step.accepted?
      ⟨x, .answer s token verdict delegate, .answered result, z⟩ id =
        if inst.head = id then some ⟨i, sess.uid, verdict⟩ else none := by
    simp only [Step.accepted?, if_neg hresult, hs, Option.bind_some]
    rw [hpending, Option.bind_some, hi, Option.bind_some]
  refine hd.change (.withBroker x (Nat.le_refl _)) fun id => ?_
  by_cases hid : id = inst.head
  · subst id
    obtain ⟨hrecorded, habandoned, hresolved⟩ := (hd.standing inst.head).recorded hh
    refine .inr ⟨.present ((Broker.heads_recordAnswer hh ..).trans (if_pos rfl)) ?_ ?_ hresolved,
      hresolved, hd.fresh hrecorded.created⟩
    · have hanswer : answerFor (past ++ [_]) inst.head = some ⟨i, sess.uid, verdict⟩ :=
        latest_snoc_of_some ((haccepted inst.head).trans (if_pos rfl))
      refine ⟨hrecorded.event, (latest_snoc_of_none rfl).trans hrecorded.created,
        (latest_snoc_of_none rfl).trans hrecorded.waiter, ?_, ?_⟩
      · rw [hanswer]
        rfl
      · rw [verdictOf, hanswer]
        rfl
    · rw [abandoned_snoc, not_or]
      exact ⟨habandoned, Step.not_abandons (by simp)⟩
  · have hne : inst.head ≠ id := fun h => hid h.symm
    refine .inl ⟨Step.Silent.agree ⟨rfl, rfl, (haccepted id).trans (if_neg hne),
      Step.not_abandons (by simp)⟩, ?_⟩
    rw [withBroker, Broker.heads_recordAnswer hh, if_neg hid]

theorem Effect.docket {op : Operation ω} {r : Response} (he : Effect t x op r y ids)
    (hb : x.broker.Coherent) (hd : Docket past x) (z : Exchange ω σ) :
    Docket (past ++ [⟨x, op, r, z⟩]) y := by
  have hquiet := he.quiet hb
  cases he with
  | refused => exact hd.silent hquiet (Step.silent_of_refused rfl) fun _ => rfl
  | opened => exact hd.silent hquiet (Step.silent_of_operation rfl) fun _ => rfl
  | registered hop =>
    rcases hop with ⟨f, rfl | rfl⟩ <;>
      exact hd.silent hquiet (Step.silent_of_operation rfl) fun _ => rfl
  | created waiter hm => exact docket_created hd waiter hm z
  | waiterSet waiter hh => exact docket_waiterSet hd waiter hh z
  | abandoned hh => exact docket_abandoned hd hh z
  | offered r hop hy =>
    rcases hop with rfl | ⟨s, rfl⟩ <;>
      exact hd.silent hquiet (Step.silent_of_operation rfl) (offers_account hy)
  | duplicate =>
    exact hd.silent hquiet (fun _ => ⟨rfl, rfl, rfl, Step.not_abandons (by simp)⟩) fun _ => rfl
  | answered verdict delegate hs hpending hi hh hresult =>
    refine docket_answered hd verdict delegate hs hpending hi hh ?_ z
    rintro rfl
    simp at hresult
  | absent | broadcast => exact hd.silent hquiet (Step.silent_of_operation rfl) fun _ => rfl
  | tornDown hs =>
    exact hd.silent hquiet (Step.silent_of_operation rfl)
      ((closing_spec hb hs).1.account hb)

end Effect

theorem Broadcast.concludes {id : HeadId} {h : Head ω} {new : List Send}
    (hx : Broadcast id h x y new) (hb : x.broker.Coherent) (hh : x.broker.heads.get? id = some h)
    {send : Send} (hs : send ∈ new) (id' : HeadId) :
    send.purpose.concludes id' = decide (id = id') := by
  obtain ⟨p, howed, htells⟩ := hx.owed hb hh hs
  rw [htells.purpose, howed.head]
  rfl

theorem Broadcast.not_concludes {id id' : HeadId} {h : Head ω} {new : List Send}
    (hx : Broadcast id h x y new) (hb : x.broker.Coherent) (hh : x.broker.heads.get? id = some h)
    (hne : id ≠ id') {send : Send} (hs : send ∈ new) : send.purpose.concludes id' = false :=
  (hx.concludes hb hh hs id').trans (decide_eq_false hne)

theorem Broadcast.docket {id : HeadId} {h : Head ω} {new : List Send}
    (hx : Broadcast id h x y new) (hb : x.broker.Coherent) (hh : x.broker.heads.get? id = some h)
    (hd : Docket past x) : Docket past y := by
  obtain ⟨hrecorded, habandoned, hnot⟩ := (hd.standing id).recorded hh
  have hheads (id') : y.broker.heads.get? id' =
      if id' = id then none else x.broker.heads.get? id' := by
    rw [hx.heads, Table.get?_erase]
  -- Results are sent for resolved heads only, so those of this head are the new ones.
  have hunsent : notified id x.sends = 0 := by
    refine notified_eq_zero fun send hs => ?_
    exact Bool.eq_false_iff.mpr fun hconcludes => hnot (hd.concluded hs hconcludes)
  exact {
    standing := fun id' => by
      by_cases hid : id' = id
      · subst id'
        refine .resolved ((hheads id).trans (if_pos rfl)) hrecorded.created habandoned ?_
        rw [hx.resolved]
        exact List.mem_append_right _ (List.mem_singleton_self id)
      · refine (hd.standing id').congr (.refl past id') ?_ ?_
        · rw [hheads, if_neg hid]
        · rw [hx.resolved, List.mem_append, List.mem_singleton]
          exact or_iff_left hid
    fresh := fun hm => hx.nextId ▸ hd.fresh hm
    once := by
      rw [hx.resolved]
      refine List.nodup_append.mpr ⟨hd.once, List.nodup_singleton id, ?_⟩
      rintro id' hid' _ hid rfl
      exact hnot (List.mem_singleton.mp hid ▸ hid')
    completed := by
      rw [hx.completions, hx.resolved, List.filterMap_append, hd.completed]
      congr 1
      · refine List.filterMap_congr fun id' hid' => ?_
        have hne : id ≠ id' := fun h => hnot (h ▸ hid')
        have hnew : notified id' new = 0 :=
          notified_eq_zero fun _ hs => hx.not_concludes hb hh hne hs
        refine ((Agree.refl past id').completionOf ?_).symm
        rw [hx.sends, notified_append, hnew, Nat.add_zero]
      · have hcount : notified id y.sends = new.countP (·.result.isOk) := by
          rw [hx.sends, notified_append, hunsent, Nat.zero_add]
          exact notified_of_concludes fun send hs =>
            (hx.concludes hb hh hs id).trans (decide_eq_true rfl)
        simp only [List.filterMap_cons, List.filterMap_nil, completionOf, hrecorded.waiter,
          hrecorded.created, hrecorded.outcome, hrecorded.deciderOf, hcount]
        cases h.waiter <;> rfl
    concluded := fun {send id'} hs hconcludes => by
      rw [hx.sends, List.mem_append] at hs
      rw [hx.resolved, List.mem_append, List.mem_singleton]
      rcases hs with hs | hs
      · exact .inl (hd.concluded hs hconcludes)
      · rw [hx.concludes hb hh hs, decide_eq_true_eq] at hconcludes
        exact .inr hconcludes.symm }

theorem docket_perform {t : Transport σ} (hb : x.broker.Coherent) (hd : Docket past x)
    (op : Operation ω) : Docket (past ++ [x.step t op]) (x.perform t op).2 :=
  -- The whole step is in the history; the broadcasts in it change the state alone.
  perform_induction (P := fun z => Docket (past ++ [x.step t op]) z) hb op
    (fun he => he.docket hb hd _) fun hb hh hx hd => hx.docket hb hh hd

theorem docket_run (t : Transport σ) (capacity : Nat) (transport : σ) (ops : List (Operation ω)) :
    Docket (history t (start (.new capacity) transport) ops)
      (run t (start (.new capacity) transport) ops).2 := by
  refine (run_induction (I := fun past x => x.broker.Coherent ∧ Docket past x)
    ⟨Broker.coherent_new capacity, docket_start capacity transport⟩ (fun op hI => ?_) ops).2
  exact ⟨coherent_perform hI.1 op, docket_perform hI.1 hI.2 op⟩

end Exchange

end Arbiter
