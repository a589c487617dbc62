import Mathlib.Logic.Relation
import Arbiter.Proofs.Broker.Withdrawal

/-!
Every operation in two parts. Its effect changes the tables and leaves a list of heads that are
ready; then these are resolved, one after another. What holds of all runs is proved once for each
effect and once for one broadcast.
-/

namespace Arbiter.Exchange

variable {ω σ : Type}

@[simp] theorem send_broker (t : Transport σ) (x : Exchange ω σ) (purpose : Purpose)
    (channel : ChannelId) (m : Message) : (x.send t purpose channel m).2.broker = x.broker := rfl

theorem send_sends (t : Transport σ) (x : Exchange ω σ) (purpose : Purpose) (channel : ChannelId)
    (m : Message) : (x.send t purpose channel m).2.sends =
      x.sends ++ [⟨purpose, channel, m, (x.send t purpose channel m).1⟩] := rfl

def resolveAll (t : Transport σ) (x : Exchange ω σ) (ready : List HeadId) : Exchange ω σ :=
  ready.foldl (fun x id => (x.broadcast t id).2) x

inductive Offer (t : Transport σ) (id : HeadId) (x : Exchange ω σ) : Exchange ω σ → Prop where
  | sent {s sess h} (hs : x.broker.sessions.get? s = some sess)
      (hh : x.broker.heads.get? id = some h) (hkey : sess.interested h.key = true) :
      Offer t id x (x.send t (.event s id) sess.channel h.message).2
  | queued {s sess h} (hs : x.broker.sessions.get? s = some sess)
      (hh : x.broker.heads.get? id = some h) (hkind : h.kind = .ask)
      (hfree : sess.pending.get? h.token = none) :
      Offer t id x (x.withBroker (x.broker.addInstance s id h.token))
  | lost (s) : Offer t id x (x.withBroker (x.broker.markLost s))

inductive Effect (t : Transport σ) (x : Exchange ω σ) :
    Operation ω → Response → Exchange ω σ → List HeadId → Prop where
  | refused (op cause) : Effect t x op (.refused cause) x []
  | opened (uid channel) : Effect t x (.openSession uid channel) (.opened ⟨x.broker.nextId⟩)
      (x.withBroker (x.broker.openSession uid channel).2) []
  | registered {op s} {regs : Session → List Filter}
      (hop : ∃ g, op = .register s g ∨ op = .unregister s g)
      (hregs : ∀ sess, x.broker.sessions.get? s = some sess →
        ∀ f ∈ regs sess, f ∈ sess.registrations ∨ sess.MayRegister f) :
      Effect t x op .done (x.withBroker (x.broker.modifySession s fun sess =>
        { sess with registrations := regs sess })) []
  | created {m e} (waiter) (hm : m.decode = .ok (.event e)) :
      Effect t x (.createHead m waiter) (.created ⟨x.broker.nextId⟩)
        (x.withBroker { x.broker with
          heads := x.broker.heads.insert ⟨x.broker.nextId⟩ (.new m e waiter)
          nextId := x.broker.nextId + 1 }) []
  | waiterSet {id h} (waiter) (hh : x.broker.heads.get? id = some h) :
      Effect t x (.setWaiter id waiter) .done
        (x.withBroker (x.broker.modifyHead id fun h => { h with waiter := some waiter })) []
  | abandoned {id h} (hh : x.broker.heads.get? id = some h) (hempty : h.instances = []) :
      Effect t x (.abandon id) (.abandoned h.message)
        (x.withBroker { x.broker with heads := x.broker.heads.erase id }) []
  | offered {op id y} (r) (hop : op = .dispatchAll id ∨ ∃ s, op = .dispatch s id)
      (hy : Relation.ReflTransGen (Offer t id) x y) : Effect t x op r y []
  | duplicate (s token verdict delegate) :
      Effect t x (.answer s token verdict delegate) (.answered .duplicate) x []
  | answered {s token sess i inst h result ready} (verdict delegate)
      (hs : x.broker.sessions.get? s = some sess) (hpending : sess.pending.get? token = some i)
      (hi : x.broker.instances.get? i = some inst) (hh : x.broker.heads.get? inst.head = some h)
      (hresult : result = .decided ∧ ready = [inst.head] ∨ result = .delegated ∧ ready = [] ∧
        0 < (recordVerdict h (!inst.verdictReceived) verdict ⟨i, sess.uid⟩).live) :
      Effect t x (.answer s token verdict delegate) (.answered result)
        (x.withBroker (x.broker.recordAnswer i inst h verdict sess.uid)) ready
  | absent {id} (hh : x.broker.heads.get? id = none) :
      Effect t x (.broadcast id) (.resolved false) x []
  | broadcast {id h} (hh : x.broker.heads.get? id = some h) :
      Effect t x (.broadcast id) (.resolved true) x [id]
  | tornDown {s sess} (hs : x.broker.sessions.get? s = some sess) :
      Effect t x (.teardown s)
        (.tornDown ⟨sess.registrations.length, sess.pending.size,
          (closing x.broker s sess).ready.length⟩)
        (x.withBroker (closing x.broker s sess).broker) (closing x.broker s sess).ready

theorem Offer.coherent {t : Transport σ} {id : HeadId} {x y : Exchange ω σ} (h : Offer t id x y)
    (hb : x.broker.Coherent) : y.broker.Coherent := by
  cases h with
  | sent => exact hb
  | queued hs hh hkind hfree => exact hb.addInstance hs hh hkind hfree
  | lost s => exact hb.modifySession s fun _ => rfl

theorem offers_coherent {t : Transport σ} {id : HeadId} {x y : Exchange ω σ}
    (h : Relation.ReflTransGen (Offer t id) x y) (hb : x.broker.Coherent) : y.broker.Coherent := by
  induction h with
  | refl => exact hb
  | tail _ hoffer ih => exact hoffer.coherent ih

inductive Dispatched (t : Transport σ) (x : Exchange ω σ) (s : SessionId) (id : HeadId) :
    Except Refusal Dispatch → Exchange ω σ → Prop where
  | unknownSession (hs : x.broker.sessions.get? s = none) :
      Dispatched t x s id (.error (.unknownSession s)) x
  | unknownHead {sess} (hs : x.broker.sessions.get? s = some sess)
      (hh : x.broker.heads.get? id = none) : Dispatched t x s id (.error (.unknownHead id)) x
  | notInterested {sess h} (hs : x.broker.sessions.get? s = some sess)
      (hh : x.broker.heads.get? id = some h) (hkey : sess.interested h.key = false) :
      Dispatched t x s id (.ok .notInterested) x
  | duplicate {sess h i} (hs : x.broker.sessions.get? s = some sess)
      (hh : x.broker.heads.get? id = some h) (hkey : sess.interested h.key = true)
      (hkind : h.kind = .ask) (hpending : sess.pending.get? h.token = some i) :
      Dispatched t x s id (.error (.duplicateToken h.token)) x
  | refused {sess h e} (hs : x.broker.sessions.get? s = some sess)
      (hh : x.broker.heads.get? id = some h) (hkey : sess.interested h.key = true)
      (hsend : (x.send t (.event s id) sess.channel h.message).1 = .error e) :
      Dispatched t x s id (.error (.ofSend e)) (x.send t (.event s id) sess.channel h.message).2
  | sent {sess h} (hs : x.broker.sessions.get? s = some sess)
      (hh : x.broker.heads.get? id = some h) (hkey : sess.interested h.key = true)
      (hkind : h.kind = .notify)
      (hsend : (x.send t (.event s id) sess.channel h.message).1 = .ok ()) :
      Dispatched t x s id (.ok .sent) (x.send t (.event s id) sess.channel h.message).2
  | queued {sess h} (hs : x.broker.sessions.get? s = some sess)
      (hh : x.broker.heads.get? id = some h) (hkey : sess.interested h.key = true)
      (hkind : h.kind = .ask) (hfree : sess.pending.get? h.token = none)
      (hsend : (x.send t (.event s id) sess.channel h.message).1 = .ok ()) :
      Dispatched t x s id (.ok .queued)
        ((x.send t (.event s id) sess.channel h.message).2.withBroker
          (x.broker.addInstance s id h.token))

theorem dispatch_spec (t : Transport σ) (x : Exchange ω σ) (s : SessionId) (id : HeadId) :
    Dispatched t x s id (x.dispatch t s id).1 (x.dispatch t s id).2 := by
  unfold dispatch
  cases hs : x.broker.sessions.get? s with
  | none => exact .unknownSession hs
  | some sess =>
    cases hh : x.broker.heads.get? id with
    | none => exact .unknownHead hs hh
    | some h =>
      simp only
      cases hkey : sess.interested h.key with
      | false => exact .notInterested hs hh hkey
      | true =>
        rw [if_neg (by simp)]
        have hrefused {e} := Dispatched.refused (t := t) (e := e) hs hh hkey
        have hbroker := send_broker t x (.event s id) sess.channel h.message
        cases hkind : h.kind with
        | notify =>
          have hsent := Dispatched.sent (t := t) hs hh hkey hkind
          cases hsend : x.send t (.event s id) sess.channel h.message with
          | mk result y =>
            rw [hsend] at hrefused hsent
            cases result with
            | error e => exact hrefused rfl
            | ok u => exact hsent rfl
        | ask =>
          simp only
          cases hpending : sess.pending.get? h.token with
          | some i =>
            rw [if_pos (by simp [Table.contains, hpending])]
            exact .duplicate hs hh hkey hkind hpending
          | none =>
            rw [if_neg (by simp [Table.contains, hpending])]
            have hqueued := Dispatched.queued (t := t) hs hh hkey hkind hpending
            rw [← hbroker] at hqueued
            cases hsend : x.send t (.event s id) sess.channel h.message with
            | mk result y =>
              rw [hsend] at hrefused hqueued
              cases result with
              | error e => exact hrefused rfl
              | ok u => exact hqueued rfl

theorem dispatch_offers (t : Transport σ) (x : Exchange ω σ) (s : SessionId) (id : HeadId) :
    Relation.ReflTransGen (Offer t id) x (x.dispatch t s id).2 := by
  have hspec := dispatch_spec t x s id
  generalize x.dispatch t s id = outcome at hspec ⊢
  obtain ⟨result, y⟩ := outcome
  cases hspec with
  | unknownSession | unknownHead | notInterested | duplicate => exact .refl
  | refused hs hh hkey => exact .single (.sent hs hh hkey)
  | sent hs hh hkey => exact .single (.sent hs hh hkey)
  | queued hs hh hkey hkind hfree =>
    exact .tail (.single (.sent hs hh hkey)) (.queued hs hh hkind hfree)

theorem dispatchAll_induction {P : Exchange ω σ → Prop} {t : Transport σ} {x : Exchange ω σ}
    {id : HeadId} (hx : P x) (hdispatch : ∀ {y} (s), P y → P (y.dispatch t s id).2)
    (hlost : ∀ {y} (s), P y → P (y.withBroker (y.broker.markLost s))) :
    P (x.dispatchAll t id).2 := by
  have hoffer (s : SessionId) (n : Nat) (y : Exchange ω σ) (hy : P y) :
      P (offer t id (n, y) s).2 := by
    have hdispatched := hdispatch s hy
    cases hd : y.dispatch t s id with
    | mk result z =>
      rw [hd] at hdispatched
      cases result with
      | ok d =>
        cases d <;>
        · simp only [offer, hd]
          exact hdispatched
      | error e =>
        simp only [offer, hd]
        split
        · exact hlost s hdispatched
        · exact hdispatched
  have hfold (ss : List SessionId) (progress : Nat × Exchange ω σ) (hy : P progress.2) :
      P (ss.foldl (offer t id) progress).2 := by
    induction ss generalizing progress with
    | nil => exact hy
    | cons s ss ih => exact ih _ (hoffer s progress.1 progress.2 hy)
  unfold dispatchAll
  split
  · exact hfold x.broker.reachableSessions (0, x) hx
  · exact hx

theorem dispatchAll_offers (t : Transport σ) (x : Exchange ω σ) (id : HeadId) :
    Relation.ReflTransGen (Offer t id) x (x.dispatchAll t id).2 :=
  dispatchAll_induction (P := Relation.ReflTransGen (Offer t id) x) .refl
    (fun s hy => hy.trans (dispatch_offers t _ s id)) fun s hy => hy.tail (.lost s)

structure Ready (b : Broker ω) (ready : List HeadId) : Prop where
  nodup : ready.Nodup
  present {id} : id ∈ ready → ∃ h, b.heads.get? id = some h

theorem Ready.nil (b : Broker ω) : Ready b [] :=
  ⟨List.nodup_nil, fun h => absurd h List.not_mem_nil⟩

theorem Ready.single {b : Broker ω} {id : HeadId} {h : Head ω} (hh : b.heads.get? id = some h) :
    Ready b [id] :=
  ⟨List.nodup_singleton id, fun hid => List.mem_singleton.mp hid ▸ ⟨h, hh⟩⟩

theorem Ready.tail {id : HeadId} {rest : List HeadId} {h : Head ω} {x x' : Exchange ω σ}
    {new : List Send} (hr : Ready x.broker (id :: rest)) (hx : Broadcast id h x x' new) :
    Ready x'.broker rest where
  nodup := hr.nodup.of_cons
  present {id'} hid := by
    obtain ⟨h', hh'⟩ := hr.present (List.mem_cons_of_mem _ hid)
    refine ⟨h', ?_⟩
    rw [hx.heads, Table.get?_erase, if_neg, hh']
    rintro rfl
    exact (List.nodup_cons.mp hr.nodup).1 hid

theorem resolveAll_induction {P : List HeadId → Exchange ω σ → Prop} (t : Transport σ)
    {x : Exchange ω σ} {ready : List HeadId} (hb : x.broker.Coherent) (hr : Ready x.broker ready)
    (hx : P ready x)
    (hstep : ∀ {id rest h y z new}, y.broker.Coherent → y.broker.heads.get? id = some h →
      Broadcast id h y z new → P (id :: rest) y → P rest z) : P [] (x.resolveAll t ready) := by
  induction ready generalizing x with
  | nil => exact hx
  | cons id rest ih =>
    -- No head is named twice, so those that follow survive the broadcast of this one.
    obtain ⟨h, hh⟩ := hr.present (List.mem_cons_self ..)
    obtain ⟨new, -, hspec⟩ := broadcast_spec t hb hh
    exact ih (hspec.coherent hb hh) (hr.tail hspec) (hstep hb hh hspec hx)

theorem foldl_resolveNext (t : Transport σ) {x : Exchange ω σ} {ready : List HeadId}
    (hb : x.broker.Coherent) (hr : Ready x.broker ready) (n : Nat) :
    ready.foldl (resolveNext t) (n, x) = (n + ready.length, x.resolveAll t ready) := by
  induction ready generalizing x n with
  | nil => rfl
  | cons id rest ih =>
    obtain ⟨h, hh⟩ := hr.present (List.mem_cons_self ..)
    obtain ⟨new, htrue, hspec⟩ := broadcast_spec t hb hh
    have hnext : resolveNext t (n, x) id = (n + 1, (x.broadcast t id).2) := by
      cases hx : x.broadcast t id with
      | mk present y =>
        rw [hx] at htrue
        cases htrue
        simp only [resolveNext, hx]
    rw [List.foldl_cons, hnext, ih (hspec.coherent hb hh) (hr.tail hspec), List.length_cons,
      Nat.add_assoc, Nat.add_comm 1]
    rfl

theorem closing_ready {b : Broker ω} (hb : b.Coherent) {s : SessionId} {sess : Session}
    (hs : b.sessions.get? s = some sess) :
    Ready (closing b s sess).broker (closing b s sess).ready :=
  have hc := (closing_spec hb hs).1
  ⟨hc.nodup, fun hid => (hc.ready.mp hid).2.imp fun _ h => h.1⟩

namespace Effect

variable {t : Transport σ} {x y : Exchange ω σ} {op : Operation ω} {r : Response}
  {ids : List HeadId}

theorem coherent (he : Effect t x op r y ids) (hb : x.broker.Coherent) : y.broker.Coherent := by
  cases he with
  | refused => exact hb
  | opened uid channel => exact hb.openSession uid channel
  | registered => exact hb.modifySession _ fun _ => rfl
  | created waiter _ => exact hb.insertHead _ _ waiter
  | waiterSet waiter _ => exact hb.setWaiter _ waiter
  | abandoned hh hempty => exact hb.eraseHead hh hempty
  | offered _ _ hy => exact offers_coherent hy hb
  | duplicate => exact hb
  | answered verdict _ hs _ hi hh => exact hb.recordAnswer hi hh verdict _
  | absent => exact hb
  | broadcast => exact hb
  | tornDown hs => exact (closing_spec hb hs).1.coherent hb

theorem ready (he : Effect t x op r y ids) (hb : x.broker.Coherent) : Ready y.broker ids := by
  cases he with
  | broadcast hh => exact .single hh
  | tornDown hs => exact closing_ready hb hs
  | answered verdict _ hs _ hi hh hresult =>
    rcases hresult with ⟨-, rfl⟩ | ⟨-, rfl, -⟩
    · exact .single ((Broker.heads_recordAnswer hh ..).trans (if_pos rfl))
    · exact .nil _
  | _ => exact .nil _

end Effect

def Performs (t : Transport σ) (x : Exchange ω σ) (op : Operation ω)
    (result : Response × Exchange ω σ) : Prop :=
  ∃ y ids, Effect t x op result.1 y ids ∧ result.2 = y.resolveAll t ids

section Perform

variable {t : Transport σ} {x : Exchange ω σ}

theorem Performs.of_effect {op : Operation ω} {result : Response × Exchange ω σ}
    (he : Effect t x op result.1 result.2 []) : Performs t x op result :=
  ⟨result.2, [], he, rfl⟩

theorem performs_register (s : SessionId) (f : Filter) :
    Performs t x (.register s f) (x.perform t (.register s f)) := by
  refine .of_effect ?_
  simp only [perform, Broker.register]
  cases hs : x.broker.sessions.get? s with
  | none => exact .refused _ _
  | some sess =>
    simp only
    split
    · rename_i hmay
      refine .registered ⟨f, .inl rfl⟩ fun sess' hs' g hg => ?_
      obtain rfl : sess = sess' := Option.some.inj (hs.symm.trans hs')
      rcases List.mem_append.mp hg with hg | hg
      · exact .inl hg
      · obtain rfl : g = f := List.mem_singleton.mp hg
        exact .inr hmay
    · exact .refused _ _

theorem performs_unregister (s : SessionId) (f : Filter) :
    Performs t x (.unregister s f) (x.perform t (.unregister s f)) := by
  refine .of_effect ?_
  simp only [perform, Broker.unregister]
  cases x.broker.sessions.get? s with
  | none => exact .refused _ _
  | some sess =>
    simp only
    split
    · exact .registered ⟨f, .inr rfl⟩ fun _ _ _ hg => .inl (List.mem_of_mem_erase hg)
    · exact .refused _ _

theorem performs_createHead (m : Message) (waiter : Option ω) :
    Performs t x (.createHead m waiter) (x.perform t (.createHead m waiter)) := by
  refine .of_effect ?_
  simp only [perform, Broker.createHead]
  cases hm : m.decode with
  | error fault => exact .refused _ _
  | ok content =>
    cases content with
    | event e => exact .created waiter hm
    | _ => exact .refused _ _

theorem performs_setWaiter (id : HeadId) (waiter : ω) :
    Performs t x (.setWaiter id waiter) (x.perform t (.setWaiter id waiter)) := by
  refine .of_effect ?_
  simp only [perform, Broker.setWaiter]
  split
  · rename_i hh
    obtain ⟨h, hh⟩ := Option.isSome_iff_exists.mp hh
    exact .waiterSet waiter hh
  · exact .refused _ _

theorem performs_abandon (id : HeadId) :
    Performs t x (.abandon id) (x.perform t (.abandon id)) := by
  refine .of_effect ?_
  simp only [perform, Broker.abandon]
  cases hh : x.broker.heads.get? id with
  | none => exact .refused _ _
  | some h =>
    simp only
    split
    · rename_i hempty
      exact .abandoned hh (List.isEmpty_iff.mp hempty)
    · exact .refused _ _

theorem performs_broadcast (hb : x.broker.Coherent) (id : HeadId) :
    Performs t x (.broadcast id) (x.perform t (.broadcast id)) := by
  cases hh : x.broker.heads.get? id with
  | none =>
    refine ⟨x, [], ?_, ?_⟩ <;> simp only [perform, broadcast_absent t hh]
    · exact .absent hh
    · rfl
  | some h =>
    obtain ⟨new, htrue, -⟩ := broadcast_spec t hb hh
    refine ⟨x, [id], ?_, rfl⟩
    simp only [perform, Prod.map, htrue]
    exact .broadcast hh

theorem answer_of_pending (hb : x.broker.Coherent) {s : SessionId} {token : UInt64}
    {sess : Session} {i : InstanceId} {inst : Instance} {h : Head ω}
    (hs : x.broker.sessions.get? s = some sess) (hpending : sess.pending.get? token = some i)
    (hi : x.broker.instances.get? i = some inst) (hh : x.broker.heads.get? inst.head = some h)
    (verdict : Verdict) (delegate : Bool) :
    x.answer t s token verdict delegate =
      let recorded := x.withBroker (x.broker.recordAnswer i inst h verdict sess.uid)
      if delegate && 0 < (recordVerdict h (!inst.verdictReceived) verdict ⟨i, sess.uid⟩).live then
        (.ok .delegated, recorded)
      else (.ok .decided, (recorded.broadcast t inst.head).2) := by
  simp only [answer, hs]
  rw [hpending]
  simp only [hi, hb.unreplied hi, hh, Bool.false_eq_true, ↓reduceIte]
  rfl

theorem performs_answer (hb : x.broker.Coherent) (s : SessionId) (token : UInt64)
    (verdict : Verdict) (delegate : Bool) : Performs t x (.answer s token verdict delegate)
      (x.perform t (.answer s token verdict delegate)) := by
  cases hs : x.broker.sessions.get? s with
  | none =>
    simp only [perform, answer, hs]
    exact .of_effect (.refused _ _)
  | some sess =>
    cases hpending : sess.pending.get? token with
    | none =>
      simp only [perform, answer, hs]
      rw [hpending]
      simp only
      split
      · exact .of_effect (.duplicate s token verdict delegate)
      · exact .of_effect (.refused _ _)
    | some i =>
      -- The tables agree, so neither the instance nor its head can be missing.
      have hawaited : x.broker.awaited? s token = some i := by simp [Broker.awaited?, hs, hpending]
      obtain ⟨inst, hi, -⟩ := hb.awaited.mp hawaited
      obtain ⟨h, hh, -⟩ := hb.listed hi
      simp only [perform, answer_of_pending hb hs hpending hi hh]
      split
      · rename_i hdelegate
        rw [Bool.and_eq_true, decide_eq_true_eq] at hdelegate
        exact .of_effect (.answered verdict delegate hs hpending hi hh
          (.inr ⟨rfl, rfl, hdelegate.2⟩))
      · exact ⟨_, [inst.head], .answered verdict delegate hs hpending hi hh (.inl ⟨rfl, rfl⟩), rfl⟩

theorem teardown_of_open (hb : x.broker.Coherent) {s : SessionId} {sess : Session}
    (hs : x.broker.sessions.get? s = some sess) :
    x.teardown t s =
      let closed := closing x.broker s sess
      (.ok ⟨sess.registrations.length, sess.pending.size, closed.ready.length⟩,
        (x.withBroker closed.broker).resolveAll t closed.ready) := by
  obtain ⟨hclosed, hdrained⟩ := closing_spec hb hs
  have hfold := foldl_resolveNext t (x := x.withBroker (closing x.broker s sess).broker)
    (hclosed.coherent hb) (closing_ready hb hs) 0
  rw [Nat.zero_add] at hfold
  rw [← hdrained]
  unfold closing at hfold ⊢
  simp only [teardown, hs, hfold]

theorem performs_teardown (hb : x.broker.Coherent) (s : SessionId) :
    Performs t x (.teardown s) (x.perform t (.teardown s)) := by
  cases hs : x.broker.sessions.get? s with
  | none =>
    simp only [perform, teardown, hs]
    exact .of_effect (.refused _ _)
  | some sess =>
    simp only [perform, teardown_of_open hb hs]
    exact ⟨_, _, .tornDown hs, rfl⟩

theorem performs (hb : x.broker.Coherent) (op : Operation ω) :
    Performs t x op (x.perform t op) := by
  cases op with
  | openSession uid channel => exact .of_effect (.opened uid channel)
  | register s f => exact performs_register s f
  | unregister s f => exact performs_unregister s f
  | createHead m waiter => exact performs_createHead m waiter
  | setWaiter id waiter => exact performs_setWaiter id waiter
  | abandon id => exact performs_abandon id
  | dispatch s id => exact .of_effect (.offered _ (.inr ⟨s, rfl⟩) (dispatch_offers t x s id))
  | dispatchAll id => exact .of_effect (.offered _ (.inl rfl) (dispatchAll_offers t x id))
  | answer s token verdict delegate => exact performs_answer hb s token verdict delegate
  | broadcast id => exact performs_broadcast hb id
  | teardown s => exact performs_teardown hb s

theorem perform_induction {P : Exchange ω σ → Prop} (hb : x.broker.Coherent) (op : Operation ω)
    (heffect : ∀ {y ids}, Effect t x op (x.perform t op).1 y ids → P y)
    (hstep : ∀ {id h y z new}, y.broker.Coherent → y.broker.heads.get? id = some h →
      Broadcast id h y z new → P y → P z) : P (x.perform t op).2 := by
  obtain ⟨y, ids, he, hy⟩ := performs (t := t) hb op
  rw [hy]
  exact resolveAll_induction (P := fun _ z => P z) t (he.coherent hb) (he.ready hb) (heffect he)
    hstep

theorem coherent_perform (hb : x.broker.Coherent) (op : Operation ω) :
    (x.perform t op).2.broker.Coherent :=
  perform_induction (P := fun z => z.broker.Coherent) hb op (fun he => he.coherent hb)
    fun hb hh hx _ => hx.coherent hb hh

end Perform

end Arbiter.Exchange
