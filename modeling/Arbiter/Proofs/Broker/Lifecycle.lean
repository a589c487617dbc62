import Arbiter.Proofs.Broker.Docket

/-!
The life of a head. It is present until it is abandoned or resolved, and it is resolved once; the
one who waits for it then is told in that very step, nobody is told before or after, and nothing
brings it back. What he is told is the last answer that counted.
-/

namespace Arbiter

def ExactlyOne (p q r : Prop) : Prop := p ∧ ¬q ∧ ¬r ∨ ¬p ∧ q ∧ ¬r ∨ ¬p ∧ ¬q ∧ r

theorem filterMap_single {α β : Type} [DecidableEq α] (b : Option β) (a : α) {l : List α}
    (hl : l.Nodup) : l.filterMap (fun a' => if a' = a then b else none) =
      if a ∈ l then b.toList else [] := by
  induction l with
  | nil => rfl
  | cons a' l ih =>
    rw [List.nodup_cons] at hl
    have ih := ih hl.2
    by_cases h : a' = a
    · subst a'
      rw [if_neg hl.1] at ih
      cases b <;> simp [ih]
    · have hne : a ≠ a' := fun heq => h heq.symm
      simp [h, hne, ih]

namespace Exchange

variable {ω σ : Type} {past : List (Step ω σ)} {x y : Exchange ω σ} {t : Transport σ} {id : HeadId}

def told (x : Exchange ω σ) (id : HeadId) : List (Completion ω) :=
  x.completions.filter (·.head = id)

theorem filter_completionOf (past : List (Step ω σ)) (sends : List Send) (id id' : HeadId) :
    (completionOf past sends id').filter (·.head = id) =
      if id' = id then completionOf past sends id else none := by
  by_cases h : id' = id
  · subst id'
    simp only [completionOf]
    cases waiterOf past id <;> cases createdAs past id <;> simp
  · simp only [completionOf]
    cases waiterOf past id' <;> cases createdAs past id' <;> simp [h]

theorem Docket.told (hd : Docket past x) (id : HeadId) :
    x.told id = if id ∈ x.resolved then (completionOf past x.sends id).toList else [] := by
  rw [Exchange.told, hd.completed, List.filter_filterMap]
  simp only [filter_completionOf]
  exact filterMap_single _ _ hd.once

/-- The head is not there, what was told of it is what was told at `x`, and every operation on it
is refused. -/
structure Gone (t : Transport σ) (id : HeadId) (x y : Exchange ω σ) : Prop where
  absent : y.broker.heads.get? id = none
  told : y.told id = x.told id
  dispatch {s sess} : y.broker.sessions.get? s = some sess →
    y.perform t (.dispatch s id) = (.refused (.unknownHead id), y)
  dispatchAll : y.perform t (.dispatchAll id) = (.refused (.unknownHead id), y)
  setWaiter (waiter) : y.perform t (.setWaiter id waiter) = (.refused (.unknownHead id), y)
  abandon : y.perform t (.abandon id) = (.refused (.unknownHead id), y)
  broadcast : y.perform t (.broadcast id) = (.resolved false, y)

theorem Gone.of_absent (t : Transport σ) (habsent : y.broker.heads.get? id = none)
    (htold : y.told id = x.told id) : Gone t id x y where
  absent := habsent
  told := htold
  dispatch hs := by
    simp only [perform, Exchange.dispatch, hs, habsent]
    rfl
  dispatchAll := by
    simp only [perform, Exchange.dispatchAll, Table.contains, habsent]
    rfl
  setWaiter waiter := by
    simp only [perform, Broker.setWaiter, Table.contains, habsent]
    rfl
  abandon := by
    simp only [perform, Broker.abandon, habsent]
    rfl
  broadcast := by
    simp only [perform, broadcast_absent t habsent]
    rfl

structure Lifecycle (t : Transport σ) (past : List (Step ω σ)) (x : Exchange ω σ) (id : HeadId)
    (m : Message) : Prop where
  condition : ExactlyOne (∃ h, x.broker.heads.get? id = some h) (Abandoned past id)
    (x.resolved.count id = 1)
  once : x.resolved.count id ≤ 1
  untold : id ∉ x.resolved → x.told id = []
  told : id ∈ x.resolved → (x.told id).map (fun c => (c.waiter, c.head, c.message)) =
    (waiterOf past id).toList.map (·, id, m)
  resolving (op) : id ∉ x.resolved → id ∈ (x.perform t op).2.resolved →
    ((x.perform t op).2.told id).map (fun c => (c.waiter, c.head, c.message)) =
      (waiterOf past id).toList.map (·, id, m)
  gone (ops) : x.broker.heads.get? id = none → Gone t id x (run t x ops).2

theorem Docket.condition (hd : Docket past x) {m : Message} (hm : createdAs past id = some m) :
    ExactlyOne (∃ h, x.broker.heads.get? id = some h) (Abandoned past id)
      (x.resolved.count id = 1) := by
  cases hd.standing id with
  | unissued _ hcreated => simp [hm] at hcreated
  | present hh _ habandoned hresolved =>
    refine .inl ⟨⟨_, hh⟩, habandoned, ?_⟩
    simp [List.count_eq_zero.mpr hresolved]
  | abandoned habsent _ habandoned hresolved =>
    refine .inr (.inl ⟨by simp [habsent], habandoned, ?_⟩)
    simp [List.count_eq_zero.mpr hresolved]
  | resolved habsent _ habandoned hresolved =>
    exact .inr (.inr ⟨by simp [habsent], habandoned, List.count_eq_one_of_mem hd.once hresolved⟩)

theorem Docket.untold (hd : Docket past x) (hnot : id ∉ x.resolved) : x.told id = [] := by
  rw [hd.told, if_neg hnot]

theorem Docket.told_resolved (hd : Docket past x) {m : Message} (hm : createdAs past id = some m)
    (hid : id ∈ x.resolved) : (x.told id).map (fun c => (c.waiter, c.head, c.message)) =
      (waiterOf past id).toList.map (·, id, m) := by
  rw [hd.told, if_pos hid, completionOf, hm]
  cases waiterOf past id <;> rfl

theorem Effect.resolving {op : Operation ω} {r : Response} {ids : List HeadId}
    (he : Effect t x op r y ids) (hne : ids ≠ []) (z : Exchange ω σ) (id : HeadId) :
    Step.created? ⟨x, op, r, z⟩ id = none ∧ Step.waiter? ⟨x, op, r, z⟩ id = none := by
  cases he with
  | answered | broadcast | tornDown => exact ⟨rfl, rfl⟩
  | _ => exact absurd rfl hne

theorem Effect.absent_of_issued {op : Operation ω} {r : Response} {ids : List HeadId}
    (he : Effect t x op r y ids) (hb : x.broker.Coherent) (hlt : id.number < x.broker.nextId)
    (habsent : x.broker.heads.get? id = none) : y.broker.heads.get? id = none := by
  cases he with
  | refused | opened | registered | duplicate | absent | broadcast => exact habsent
  | created =>
    refine (Table.get?_insert ..).trans ((if_neg ?_).trans habsent)
    rintro rfl
    exact Nat.lt_irrefl _ hlt
  | waiterSet => simp [withBroker, Broker.modifyHead, Table.get?_modify, habsent]
  | abandoned => simp [withBroker, Table.get?_erase, habsent]
  | answered => simp [withBroker, Broker.recordAnswer, Table.get?_modify, habsent]
  | offered _ _ hy =>
    have hsame := offers_account hy id
    rwa [habsent, Option.map_none, Option.map_eq_none_iff] at hsame
  | tornDown hs =>
    have hsame := (closing_spec hb hs).1.account hb id
    rwa [habsent, Option.map_none, Option.map_eq_none_iff] at hsame

theorem Broadcast.told_of_ne {id' : HeadId} {h : Head ω} {new : List Send}
    (hx : Broadcast id' h x y new) (hne : id' ≠ id) : y.told id = x.told id := by
  rw [Exchange.told, hx.completions, List.filter_append, Exchange.told]
  cases h.waiter <;> simp [hne]

theorem absent_perform (hb : x.broker.Coherent) (hlt : id.number < x.broker.nextId)
    (habsent : x.broker.heads.get? id = none) (op : Operation ω) :
    (x.perform t op).2.broker.heads.get? id = none ∧
      id.number < (x.perform t op).2.broker.nextId ∧ (x.perform t op).2.told id = x.told id := by
  refine perform_induction (P := fun z => z.broker.heads.get? id = none ∧
    id.number < z.broker.nextId ∧ z.told id = x.told id) hb op ?_ ?_
  · intro y ids he
    have hquiet := he.quiet hb
    refine ⟨he.absent_of_issued hb hlt habsent, Nat.lt_of_lt_of_le hlt hquiet.nextId, ?_⟩
    rw [told, hquiet.completions, told]
  · rintro id' h y z new - hh hx ⟨habsent, hlt, htold⟩
    -- The head that is resolved is there, so it is another one.
    have hne : id' ≠ id := by
      rintro rfl
      simp [hh] at habsent
    refine ⟨?_, hx.nextId ▸ hlt, (hx.told_of_ne hne).trans htold⟩
    rw [hx.heads, Table.get?_erase, habsent, ite_self]

theorem gone_run (hb : x.broker.Coherent) (hlt : id.number < x.broker.nextId)
    (habsent : x.broker.heads.get? id = none) (ops : List (Operation ω)) :
    Gone t id x (run t x ops).2 := by
  have hrun : (run t x ops).2.broker.Coherent ∧ (run t x ops).2.broker.heads.get? id = none ∧
      id.number < (run t x ops).2.broker.nextId ∧ (run t x ops).2.told id = x.told id := by
    refine run_induction (I := fun _ y => y.broker.Coherent ∧ y.broker.heads.get? id = none ∧
      id.number < y.broker.nextId ∧ y.told id = x.told id) ⟨hb, habsent, hlt, rfl⟩ ?_ ops
    rintro - y op ⟨hb, habsent, hlt, htold⟩
    obtain ⟨habsent, hlt, htold'⟩ := absent_perform (t := t) hb hlt habsent op
    exact ⟨coherent_perform hb op, habsent, hlt, htold'.trans htold⟩
  exact .of_absent t hrun.2.1 hrun.2.2.2

theorem Docket.resolving (hd : Docket past x) (hb : x.broker.Coherent) {m : Message}
    (hm : createdAs past id = some m) (op : Operation ω) (hnot : id ∉ x.resolved)
    (hid : id ∈ (x.perform t op).2.resolved) :
    ((x.perform t op).2.told id).map (fun c => (c.waiter, c.head, c.message)) =
      (waiterOf past id).toList.map (·, id, m) := by
  obtain ⟨y, ids, he, hy⟩ := performs (t := t) hb op
  -- An effect alone resolves nothing, so some head was ready.
  have hne : ids ≠ [] := by
    rintro rfl
    rw [hy] at hid
    exact hnot ((he.quiet hb).resolved ▸ hid)
  obtain ⟨hcreated, hwaiter⟩ := he.resolving hne (x.perform t op).2 id
  have hwaiting : waiterOf (past ++ [x.step t op]) id = waiterOf past id :=
    latest_snoc_of_none hwaiter
  rw [← hwaiting]
  exact (docket_perform hb hd op).told_resolved ((latest_snoc_of_none hcreated).trans hm) hid

/-- Exactly-once resolution, over all runs. -/
structure Lifecycles (t : Transport σ) (past : List (Step ω σ)) (x : Exchange ω σ) : Prop where
  created {id : HeadId} : x.told id ≠ [] → ∃ m, createdAs past id = some m
  each {id : HeadId} {m : Message} : createdAs past id = some m → Lifecycle t past x id m

theorem lifecycles_run (t : Transport σ) (capacity : Nat) (transport : σ)
    (ops : List (Operation ω)) :
    Lifecycles t (history t (start (.new capacity) transport) ops)
      (run t (start (.new capacity) transport) ops).2 where
  created {id} hne := by
    have hd := docket_run t capacity transport ops
    cases hd.standing id with
    | unissued _ _ _ _ _ hresolved => exact absurd (hd.untold hresolved) hne
    | present _ hrecorded => exact ⟨_, hrecorded.created⟩
    | abandoned _ hcreated | resolved _ hcreated => exact ⟨_, hcreated⟩
  each {id m} hm := by
    have hb := coherent_run t capacity transport ops
    have hd := docket_run t capacity transport ops
    exact {
      condition := hd.condition hm
      once := List.nodup_iff_count_le_one.mp hd.once id
      untold := hd.untold
      told := hd.told_resolved hm
      resolving := fun op => hd.resolving hb hm op
      gone := fun ops' habsent => gone_run hb (hd.fresh hm) habsent ops' }

/-- Every verdict, on a head or told at its end, is that of the last answer that counted, and so is
its decider. -/
structure Accounts (past : List (Step ω σ)) (x : Exchange ω σ) : Prop where
  recorded {id : HeadId} {h : Head ω} : x.broker.heads.get? id = some h →
    h.outcome = verdictOf past id ∧ h.decider.map Decider.uid = deciderOf past id
  completed {c : Completion ω} : c ∈ x.completions →
    c.verdict = verdictOf past c.head ∧ c.decidedBy = deciderOf past c.head

theorem Docket.completion (hd : Docket past x) {c : Completion ω} (hc : c ∈ x.completions) :
    c.verdict = verdictOf past c.head ∧ c.decidedBy = deciderOf past c.head ∧
      c.notified = notified c.head x.sends := by
  rw [hd.completed, List.mem_filterMap] at hc
  obtain ⟨id, -, hc⟩ := hc
  obtain ⟨waiter, -, hc⟩ := Option.bind_eq_some_iff.mp hc
  obtain ⟨m, -, rfl⟩ := Option.map_eq_some_iff.mp hc
  exact ⟨rfl, rfl, rfl⟩

theorem Docket.accounts (hd : Docket past x) : Accounts past x where
  recorded {id h} hh := by
    obtain ⟨hrecorded, -⟩ := (hd.standing id).recorded hh
    exact ⟨hrecorded.outcome.symm, hrecorded.deciderOf.symm⟩
  completed hc := by
    obtain ⟨hverdict, hdecider, -⟩ := hd.completion hc
    exact ⟨hverdict, hdecider⟩

theorem Accounts.congr {past' : List (Step ω σ)} (ha : Accounts past x)
    (hsame : ∀ id, answerFor past id = answerFor past' id) : Accounts past' x := by
  have hverdict (id) : verdictOf past id = verdictOf past' id := by
    rw [verdictOf, hsame, verdictOf]
  have hdecider (id) : deciderOf past id = deciderOf past' id := by
    rw [deciderOf, hsame, deciderOf]
  exact {
    recorded := fun hh => by
      rw [← hverdict, ← hdecider]
      exact ha.recorded hh
    completed := fun hc => by
      rw [← hverdict, ← hdecider]
      exact ha.completed hc }

def Bystander (op : Operation ω) (r : Response) : Prop :=
  match op, r with
  | .answer .., .answered result => result = .duplicate
  | .answer .., .refused _ | .dispatch .., _ | .dispatchAll _, _ | .teardown _, _ => True
  | _, _ => False

theorem Bystander.accepted? {op : Operation ω} {r : Response} (h : Bystander op r)
    (x z : Exchange ω σ) (id : HeadId) : Step.accepted? ⟨x, op, r, z⟩ id = none := by
  cases op with
  | answer s token verdict delegate =>
    cases r with
    | answered result =>
      obtain rfl : result = .duplicate := h
      rfl
    | _ => rfl
  | _ => rfl

structure FinalVerdicts (t : Transport σ) (past : List (Step ω σ)) (x : Exchange ω σ) : Prop where
  now : Accounts past x
  bystander (op) : Bystander op (x.perform t op).1 → Accounts past (x.perform t op).2

theorem finalVerdicts_run (t : Transport σ) (capacity : Nat) (transport : σ)
    (ops : List (Operation ω)) :
    FinalVerdicts t (history t (start (.new capacity) transport) ops)
      (run t (start (.new capacity) transport) ops).2 where
  now := (docket_run t capacity transport ops).accounts
  bystander op hop := by
    have hd := docket_perform (t := t) (coherent_run t capacity transport ops)
      (docket_run t capacity transport ops) op
    exact hd.accounts.congr fun id => latest_snoc_of_none (hop.accepted? _ _ id)

-- A delegated verdict outlives both its session and the last session that could still answer.
example : (run ⟨fun _ _ _ => (.ok (), ())⟩ (start (.new 4) ())
    [.openSession 0 ⟨1⟩, .openSession 5 ⟨2⟩, .register ⟨1⟩ ⟨5, 0, 0⟩, .register ⟨2⟩ ⟨5, 0, 0⟩,
      .createHead (.ofBytes ([0, 0, 0, 64, 0, 0, 32, 3, 0, 0, 0, 0, 0, 0, 0, 7, 0, 0, 0, 0,
        0, 0, 0, 5] ++ List.replicate 40 0)) (some "gate"),
      .dispatchAll ⟨3⟩, .answer ⟨2⟩ 7 .allow true, .teardown ⟨2⟩, .teardown ⟨1⟩]).2.completions.map
      (fun c => (c.waiter, c.head, c.verdict, c.decidedBy, c.notified)) =
    [("gate", ⟨3⟩, .allow, some 5, 0)] := by
  decide +kernel

end Exchange

end Arbiter
