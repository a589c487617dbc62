import Arbiter.Proofs.Broker.Seclusion

/-!
A run as one event sees it. Each operation does to the event, and responds of it, what it does where
the event is the only one; an operation that is about other events does nothing to it.
-/

namespace Arbiter

def Response.Late (token : UInt64) (r : Response) : Prop :=
  r = .answered .duplicate ∨ r = .refused (.unknownToken token)

namespace Exchange

variable {ω σ : Type} {t : Transport σ} {x y : Exchange ω σ} {id id' : HeadId} {token : UInt64}

def view {α : Type} (id : HeadId) (result : α × Exchange ω σ) : α × Solo ω :=
  (result.1, result.2.solo id)

theorem member?_solo_of_open (id : HeadId) {s : SessionId} {sess : Session}
    (hs : x.broker.sessions.get? s = some sess) : (x.solo id).member? s = some (sess.member s) := by
  rw [member?_solo, hs, Option.map_some]

theorem member?_solo_of_closed (id : HeadId) {s : SessionId}
    (hs : x.broker.sessions.get? s = none) : (x.solo id).member? s = none := by
  rw [member?_solo, hs, Option.map_none]

theorem view_openSession (hb : x.broker.Coherent) (uid : UInt32) (channel : ChannelId) :
    view id (x.perform t (.openSession uid channel)) = (.opened ⟨x.broker.nextId⟩,
      { x.solo id with
        members := (x.solo id).members ++ [⟨⟨x.broker.nextId⟩, uid, channel, []⟩] }) := by
  have hmembers : (x.broker.openSession uid channel).2.members =
      x.broker.members ++ [⟨⟨x.broker.nextId⟩, uid, channel, []⟩] := by
    rw [Broker.members, Broker.openSession,
      Table.entries_insert _ _ _ (hb.session_fresh (Nat.le_refl _)), List.map_append]
    rfl
  rw [view, perform, solo_withBroker_eq, hmembers]
  rfl

theorem solo_modifySession (id : HeadId) (s : SessionId) {f : Session → Session}
    {g : Member → Member} (hf : ∀ sess, (f sess).member s = g (sess.member s)) :
    (x.withBroker (x.broker.modifySession s f)).solo id = (x.solo id).modifyMember s g := by
  rw [solo_withBroker_eq, Broker.members_modify _ _ hf]
  rfl

theorem view_register (s : SessionId) (f : Filter) :
    view id (x.perform t (.register s f)) = (x.solo id).register s f := by
  simp only [perform, Broker.register, Solo.register, member?_solo]
  cases hs : x.broker.sessions.get? s with
  | none => rfl
  | some sess =>
    simp only [Option.map_some]
    by_cases hmay : sess.MayRegister f
    · rw [if_pos hmay, if_pos (show (sess.member s).MayRegister f from hmay)]
      exact congrArg _ (solo_modifySession id s fun _ => rfl)
    · rw [if_neg hmay, if_neg (show ¬(sess.member s).MayRegister f from hmay)]
      rfl

theorem view_unregister (s : SessionId) (f : Filter) :
    view id (x.perform t (.unregister s f)) = (x.solo id).unregister s f := by
  simp only [perform, Broker.unregister, Solo.unregister, member?_solo]
  cases hs : x.broker.sessions.get? s with
  | none => rfl
  | some sess =>
    simp only [Option.map_some]
    by_cases hmem : f ∈ sess.registrations
    · rw [if_pos hmem, if_pos (show f ∈ (sess.member s).registrations from hmem)]
      exact congrArg _ (solo_modifySession id s fun _ => rfl)
    · rw [if_neg hmem, if_neg (show f ∉ (sess.member s).registrations from hmem)]
      rfl

theorem dossier?_insertHead (b : Broker ω) (id : HeadId) (m : Message) (e : Event)
    (waiter : Option ω) (n : Nat) :
    { b with heads := b.heads.insert id (.new m e waiter), nextId := n }.dossier? id =
      some (.new m e waiter) := by
  rw [Broker.dossier?, Table.get?_insert, if_pos rfl]
  rfl

theorem view_createHead (m : Message) (waiter : Option ω) :
    view id (x.perform t (.createHead m waiter)) =
      (x.solo id).createHead id ⟨x.broker.nextId⟩ m waiter := by
  simp only [perform, Broker.createHead, Solo.createHead]
  cases hm : m.decode with
  | error fault => rfl
  | ok content =>
    cases content with
    | event e =>
      by_cases hid : (⟨x.broker.nextId⟩ : HeadId) = id
      · simp only [update, if_pos hid]
        rw [view, solo_withBroker_eq, hid, dossier?_insertHead]
        rfl
      · simp only [update, if_neg hid]
        refine Prod.ext rfl (solo_withBroker ?_ ?_)
        · rfl
        · refine Broker.dossier?_congr ?_ fun _ _ _ _ => rfl
          exact (Table.get?_insert ..).trans (if_neg (Ne.symm hid))
    | _ => rfl

theorem view_setWaiter (waiter : ω) :
    view id (x.perform t (.setWaiter id waiter)) = (x.solo id).setWaiter id waiter := by
  cases hh : x.broker.heads.get? id with
  | none =>
    simp only [perform, Broker.setWaiter, Solo.setWaiter, Table.contains, hh,
      dossier_solo_of_absent hh]
    rfl
  | some h =>
    simp only [perform, Broker.setWaiter, Solo.setWaiter, Table.contains, hh, dossier_solo hh,
      Option.isSome_some, ↓reduceIte, update]
    rw [view, solo_withBroker_eq, id_eq, Broker.dossier?_setWaiter, Broker.dossier?, hh]
    rfl

theorem view_abandon (hb : x.broker.Coherent) :
    view id (x.perform t (.abandon id)) = (x.solo id).abandon id := by
  cases hh : x.broker.heads.get? id with
  | none =>
    simp only [perform, Broker.abandon, Solo.abandon, hh, dossier_solo_of_absent hh]
    rfl
  | some h =>
    have hempty : (h.dossier x.broker.instances).seats.isEmpty = h.instances.isEmpty := by
      have hrows := congrArg List.isEmpty (map_fst_rows hb hh)
      rw [List.isEmpty_map] at hrows
      exact List.isEmpty_map.trans hrows
    simp only [perform, Broker.abandon, Solo.abandon, hh, dossier_solo hh, hempty]
    split
    · rw [update, view, solo_withBroker_eq, Broker.dossier?, Table.get?_erase, if_pos rfl]
      rfl
    · rfl

theorem Secluded.pending (hx : Secluded id token x) {h : Head ω}
    (hh : x.broker.heads.get? id = some h) {s : SessionId} {sess : Session}
    (hs : x.broker.sessions.get? s = some sess) :
    (h.dossier x.broker.instances).seated s = (sess.pending.get? token).isSome := by
  have hawaited : x.broker.awaited? s token = sess.pending.get? token := by
    rw [Broker.awaited?, hs, Option.bind_some]
  rw [Bool.eq_iff_iff, hx.coherent.seated_iff hh, ← hawaited, Option.isSome_iff_exists]
  refine exists_congr fun i => ?_
  rw [hx.coherent.awaited]
  refine exists_congr fun inst => and_congr_right fun hi => and_congr_right fun _ => ?_
  obtain ⟨h', hh', htoken, -⟩ := hx.coherent.listed hi
  rw [← htoken, hx.bears hh']

theorem solo_send (t : Transport σ) (x : Exchange ω σ) (s : SessionId) (id : HeadId)
    (channel : ChannelId) (m : Message) : (x.send t (.event s id) channel m).2.solo id =
      { x.solo id with traffic := (x.solo id).traffic ++ [(channel, m)] } := by
  have htraffic : (x.send t (.event s id) channel m).2.traffic id =
      x.traffic id ++ [(channel, m)] := by
    refine traffic_of_own (send_sends t x (.event s id) channel m) fun send hsend => ?_
    rw [List.mem_singleton.mp hsend]
    rfl
  rw [solo, htraffic]
  rfl

theorem view_dispatch (ht : t.Accepts) (hx : Secluded id token x) (s : SessionId) :
    view id (x.dispatch t s id) = (x.solo id).dispatch id s := by
  have hspec := dispatch_spec t x s id
  generalize x.dispatch t s id = outcome at hspec ⊢
  obtain ⟨result, y⟩ := outcome
  cases hspec with
  | unknownSession hs =>
    rw [Solo.dispatch, member?_solo_of_closed id hs]
    rfl
  | unknownHead hs hh =>
    simp only [Solo.dispatch, member?_solo_of_open id hs, dossier_solo_of_absent hh]
    rfl
  | notInterested hs hh hkey =>
    simp only [Solo.dispatch, member?_solo_of_open id hs, dossier_solo hh,
      Session.interested_member, Head.dossier_key, hkey]
    rfl
  | duplicate hs hh hkey hkind hpending =>
    have hseated := hx.pending hh hs
    rw [← (hx.bears hh).mpr rfl, hpending] at hseated
    simp only [Solo.dispatch, member?_solo_of_open id hs, dossier_solo hh,
      Session.interested_member, Head.dossier_key, hkey, Head.dossier_kind, hkind, hseated]
    rfl
  | refused _ _ _ hsend =>
    rw [send, ht] at hsend
    cases hsend
  | @sent sess h hs hh hkey hkind =>
    simp only [Solo.dispatch, member?_solo_of_open id hs, dossier_solo hh,
      Session.interested_member, Head.dossier_key, hkey, Head.dossier_kind, hkind]
    rw [← dossier_solo hh]
    exact Prod.ext rfl (solo_send t x s id sess.channel h.message)
  | @queued sess h hs hh hkey hkind hfree =>
    have hseated := hx.pending hh hs
    rw [← (hx.bears hh).mpr rfl, hfree] at hseated
    have hdossier := Broker.dossier?_addInstance hx.coherent hh s fun d hd => hx.decider hh hd
    simp only [Solo.dispatch, member?_solo_of_open id hs, dossier_solo hh,
      Session.interested_member, Head.dossier_key, hkey, Head.dossier_kind, hkind, hseated]
    have hbroker := solo_withBroker_eq (x.send t (.event s id) sess.channel h.message).2
      (x.broker.addInstance s id h.token) id
    rw [members_addInstance, hdossier, Broker.dossier?, hh, solo_send] at hbroker
    exact Prod.ext rfl hbroker

theorem reachableSessions_eq (hx : Secluded id token x) :
    x.broker.reachableSessions = x.broker.sessions.keys := by
  rw [Broker.reachableSessions, List.filter_eq_self.mpr, Table.keys]
  intro e he
  rw [hx.attended (Table.get?_eq_some.mpr he)]
  rfl

theorem view_dispatchAll (ht : t.Accepts) (hx : Secluded id token x) :
    view id (x.perform t (.dispatchAll id)) = (x.solo id).dispatchAll id := by
  have hfold (ss : List SessionId) (n : Nat) {y : Exchange ω σ} (hy : Secluded id token y) :
      view id (ss.foldl (offer t id) (n, y)) = ss.foldl (Solo.offer id) (n, y.solo id) := by
    induction ss generalizing n y with
    | nil => rfl
    | cons s ss ih =>
      rw [List.foldl_cons, List.foldl_cons, offer_eq ht, ih _ (hy.dispatch ht s id), Solo.offer,
        ← view_dispatch ht hy s]
      rfl
  cases hh : x.broker.heads.get? id with
  | none =>
    simp only [perform, Exchange.dispatchAll, Solo.dispatchAll, Table.contains, hh,
      dossier_solo_of_absent hh]
    rfl
  | some h =>
    have hsessions : (x.solo id).members.map Member.session = x.broker.reachableSessions :=
      x.broker.map_session_members.trans (reachableSessions_eq hx).symm
    have hall := hfold x.broker.reachableSessions 0 hx
    simp only [perform, Exchange.dispatchAll, Solo.dispatchAll, Table.contains, hh,
      dossier_solo hh, hsessions, ← hall]
    rfl

theorem view_broadcast (ht : t.Accepts) (hb : x.broker.Coherent) (id : HeadId) :
    view id (x.broadcast t id) = (x.solo id).resolve id := by
  cases hh : x.broker.heads.get? id with
  | none =>
    rw [broadcast_absent t hh, Solo.resolve, dossier_solo_of_absent hh]
    rfl
  | some h =>
    obtain ⟨new, htrue, -⟩ := broadcast_spec t hb hh
    refine Prod.ext (htrue.trans ?_) ((solo_broadcast ht hb hh id).trans (if_pos rfl))
    rw [Solo.resolve, dossier_solo hh]

/-- A result is what is expected of it; where nothing is, the response is one to a late answer. -/
structure Agrees (id : HeadId) (token : UInt64) (expected : Option Response × Solo ω)
    (result : Response × Exchange ω σ) : Prop where
  solo : result.2.solo id = expected.2
  certain {r} : expected.1 = some r → result.1 = r
  late : expected.1 = none → result.1.Late token

theorem Agrees.of_solo {r : Response} {expected : Solo ω} (hsolo : y.solo id = expected) :
    Agrees id token (some r, expected) (r, y) where
  solo := hsolo
  certain hr := Option.some.inj hr
  late hr := by cases hr

theorem Agrees.of_view {expected : Response × Solo ω} {result : Response × Exchange ω σ}
    (h : view id result = expected) : Agrees id token (Solo.certain expected) result := by
  subst h
  exact .of_solo rfl

theorem Agrees.of_late {expected : Solo ω} {result : Response × Exchange ω σ}
    (hsolo : result.2.solo id = expected) (hlate : result.1.Late token) :
    Agrees id token (none, expected) result where
  solo := hsolo
  certain hr := by cases hr
  late _ := hlate

theorem agrees_answer_of_unawaited (hx : Secluded id token x) {s : SessionId} {sess : Session}
    (hs : x.broker.sessions.get? s = some sess) (hpending : sess.pending.get? token = none)
    (verdict : Verdict) (delegate : Bool) :
    Agrees id token ((x.solo id).answer id token s verdict delegate)
      (x.perform t (.answer s token verdict delegate)) := by
  have hanswer : x.answer t s token verdict delegate =
      (if sess.settled.contains token then .ok .duplicate else .error (.unknownToken token), x) := by
    simp only [answer, hs]
    rw [hpending]
    simp only
    split <;> rfl
  have hrefused (hsettled : sess.settled.contains token = false) :
      view id (x.perform t (.answer s token verdict delegate)) =
        (.refused (.unknownToken token), x.solo id) := by
    rw [perform, hanswer, hsettled]
    rfl
  cases hh : x.broker.heads.get? id with
  | none =>
    simp only [Solo.answer, member?_solo_of_open id hs, dossier_solo_of_absent hh]
    cases hsettled : sess.settled.contains token with
    | false =>
      by_cases hresolved : id ∈ x.resolved
      · rw [if_pos (show (x.solo id).resolved = true from decide_eq_true hresolved)]
        exact .of_late (congrArg Prod.snd (hrefused hsettled))
          (.inr (congrArg Prod.fst (hrefused hsettled)))
      · rw [if_neg (show ¬(x.solo id).resolved = true from by simpa [solo] using hresolved)]
        exact .of_view (hrefused hsettled)
    | true =>
      have hresolved : (x.solo id).resolved = true := decide_eq_true (hx.settled hs hsettled)
      rw [perform, hanswer, hsettled, hresolved]
      exact .of_late rfl (.inl rfl)
  | some h =>
    -- The head is there, so it is not resolved and no session settled its token.
    have hunsettled : sess.settled.contains token = false := by
      refine Bool.eq_false_iff.mpr fun hsettled => ?_
      rw [(hx.gone (hx.settled hs hsettled)).1] at hh
      cases hh
    have hseated := hx.pending hh hs
    rw [hpending] at hseated
    simp only [Solo.answer, member?_solo_of_open id hs, dossier_solo hh, hseated]
    exact .of_view (hrefused hunsettled)

theorem solo_recordAnswer (hb : x.broker.Coherent) {s : SessionId} {i : InstanceId}
    {inst : Instance} (hi : x.broker.Holds s id i inst) {h : Head ω}
    (hh : x.broker.heads.get? id = some h) (verdict : Verdict) (uid : UInt32) :
    (x.withBroker (x.broker.recordAnswer i inst h verdict uid)).solo id =
      { x.solo id with dossier := some ((h.dossier x.broker.instances).record s uid verdict) } := by
  have hdossier : x.broker.dossier? id = some (h.dossier x.broker.instances) := dossier_solo hh
  rw [solo_withBroker_eq, Broker.dossier?_recordAnswer hb hi hh, hdossier]
  rfl

theorem agrees_answer_of_awaited (ht : t.Accepts) (hx : Secluded id token x) {s : SessionId}
    {sess : Session} {i : InstanceId} (hs : x.broker.sessions.get? s = some sess)
    (hpending : sess.pending.get? token = some i) (verdict : Verdict) (delegate : Bool) :
    Agrees id token ((x.solo id).answer id token s verdict delegate)
      (x.perform t (.answer s token verdict delegate)) := by
  have hawaited : x.broker.awaited? s token = some i := by simp [Broker.awaited?, hs, hpending]
  obtain ⟨inst, hi, hsession, htoken⟩ := hx.coherent.awaited.mp hawaited
  obtain ⟨h, hh, hbears, -⟩ := hx.coherent.listed hi
  have hhead : inst.head = id := (hx.bears hh).mp (hbears.trans htoken)
  have hb : (x.withBroker (x.broker.recordAnswer i inst h verdict sess.uid)).broker.Coherent :=
    hx.coherent.recordAnswer hi hh verdict sess.uid
  have hanswer := answer_of_pending (t := t) hx.coherent hs hpending hi hh verdict delegate
  rw [hhead] at hh hanswer
  have hholds : x.broker.Holds s id i inst := ⟨hi, hsession, hhead⟩
  have hseated : (h.dossier x.broker.instances).seated s = true := by
    rw [hx.pending hh hs, hpending]
    rfl
  have hsolo := solo_recordAnswer hx.coherent hholds hh verdict sess.uid
  have hlive := Broker.live_recordVerdict hx.coherent hholds hh verdict sess.uid
  have hresolved := view_broadcast ht hb id
  rw [hsolo] at hresolved
  rw [Solo.answer_of_seated id token (member?_solo_of_open id hs) (dossier_solo hh) hseated,
    Session.uid_member, perform, hanswer, hlive]
  by_cases hdelegate : (delegate && decide
      (0 < ((h.dossier x.broker.instances).record s sess.uid verdict).live)) = true
  · rw [if_pos hdelegate, if_pos hdelegate]
    exact .of_solo hsolo
  · rw [if_neg hdelegate, if_neg hdelegate]
    exact .of_solo (congrArg Prod.snd hresolved)

theorem agrees_answer (ht : t.Accepts) (hx : Secluded id token x) (s : SessionId)
    (verdict : Verdict) (delegate : Bool) :
    Agrees id token ((x.solo id).answer id token s verdict delegate)
      (x.perform t (.answer s token verdict delegate)) := by
  cases hs : x.broker.sessions.get? s with
  | none =>
    have hrefused : view id (x.perform t (.answer s token verdict delegate)) =
        (.refused (.unknownSession s), x.solo id) := by
      simp only [perform, answer, hs]
      rfl
    rw [Solo.answer, member?_solo_of_closed id hs]
    exact .of_view hrefused
  | some sess =>
    cases hpending : sess.pending.get? token with
    | none => exact agrees_answer_of_unawaited hx hs hpending verdict delegate
    | some i => exact agrees_answer_of_awaited ht hx hs hpending verdict delegate

theorem solo_teardown (ht : t.Accepts) (hb : x.broker.Coherent) (s : SessionId) :
    (x.perform t (.teardown s)).2.solo id = (x.solo id).teardown id s := by
  cases hs : x.broker.sessions.get? s with
  | none =>
    simp only [perform, teardown, hs, Solo.teardown, member?_solo_of_closed id hs]
    rfl
  | some sess =>
    obtain ⟨hc, -⟩ := closing_spec hb hs
    have hmembers : (closing x.broker s sess).broker.members =
        (x.solo id).members.filter (·.session ≠ s) := by
      rw [Broker.members, hc.sessions, Table.erase, solo, Broker.members, List.filter_map]
      rfl
    have hready : id ∈ (closing x.broker s sess).ready ↔
        ((x.solo id).dossier.any fun d => d.seated s && decide ((d.leave s).live = 0)) = true := by
      rw [Broker.mem_ready_iff hb hc, Option.any_eq_true]
      simp only [Bool.and_eq_true, decide_eq_true_eq, solo]
    have hclosed : (x.withBroker (closing x.broker s sess).broker).solo id = { x.solo id with
        members := (x.solo id).members.filter (·.session ≠ s)
        dossier := (x.solo id).dossier.map (·.leave s) } := by
      rw [solo_withBroker_eq, hmembers, Broker.dossier?_closing hb hc]
      rfl
    have hall := solo_resolveAll ht (x := x.withBroker (closing x.broker s sess).broker)
      (hc.coherent hb) (closing_ready hb hs) id
    rw [hclosed] at hall
    simp only [perform, teardown_of_open hb hs, Solo.teardown, member?_solo_of_open id hs,
      Option.isSome_some, ↓reduceIte, ← hready]
    exact hall

theorem dossier?_recordAnswer_of_ne {b : Broker ω} (hb : b.Coherent) {i : InstanceId}
    {inst : Instance} (hi : b.instances.get? i = some inst) (hne : inst.head ≠ id) (h : Head ω)
    (verdict : Verdict) (uid : UInt32) :
    (b.recordAnswer i inst h verdict uid).dossier? id = b.dossier? id := by
  refine Broker.dossier?_congr ?_ fun h' hh' j hj => ?_
  · exact (Table.get?_modify ..).trans (if_neg (Ne.symm hne))
  · refine (Table.get?_modify ..).trans (if_neg ?_)
    rintro rfl
    obtain ⟨inst', hi', hhead⟩ := (hb.tallies hh').member hj
    obtain rfl : inst = inst' := Option.some.inj (hi.symm.trans hi')
    exact hne hhead

theorem Effect.solo_of_spares {op : Operation ω} {r : Response} {ids : List HeadId}
    (he : Effect t x op r y ids) (hx : Secluded id token x)
    (hissued : op.Issues ⟨x.broker.nextId⟩ id token) (hop : op.Spares id token) :
    y.solo id = x.solo id ∧ id ∉ ids := by
  cases he with
  | refused | duplicate | absent => exact ⟨rfl, List.not_mem_nil⟩
  | opened | tornDown => exact hop.elim
  | registered hregister => obtain ⟨_, rfl | rfl⟩ := hregister <;> exact hop.elim
  | created waiter hm =>
    have htoken := Message.eventToken?_eq hm
    have hne : id ≠ ⟨x.broker.nextId⟩ := fun hid =>
      hop (htoken.trans (congrArg some ((hissued _ htoken).mpr hid.symm)))
    refine ⟨solo_withBroker rfl ?_, List.not_mem_nil⟩
    refine Broker.dossier?_congr ?_ fun _ _ _ _ => rfl
    exact (Table.get?_insert ..).trans (if_neg hne)
  | waiterSet =>
    refine ⟨solo_withBroker rfl ?_, List.not_mem_nil⟩
    refine Broker.dossier?_congr ?_ fun _ _ _ _ => rfl
    exact (Table.get?_modify ..).trans (if_neg (Ne.symm hop))
  | abandoned =>
    refine ⟨solo_withBroker rfl ?_, List.not_mem_nil⟩
    refine Broker.dossier?_congr ?_ fun _ _ _ _ => rfl
    exact (Table.get?_erase ..).trans (if_neg (Ne.symm hop))
  | offered r hoffered hy =>
    refine ⟨?_, List.not_mem_nil⟩
    rcases hoffered with rfl | ⟨s, rfl⟩ <;> exact offers_solo_of_ne hy hx.coherent hop
  | @answered s token' sess i inst h _ _ _ _ hs hpending hi hh hresult =>
    -- The instance bears the other token, so its head is another one.
    have hne : inst.head ≠ id := by
      have hawaited : x.broker.awaited? s token' = some i := by
        simp [Broker.awaited?, hs, hpending]
      obtain ⟨inst', hi', -, htoken⟩ := hx.coherent.awaited.mp hawaited
      obtain rfl : inst = inst' := Option.some.inj (hi.symm.trans hi')
      obtain ⟨h', hh', hbears, -⟩ := hx.coherent.listed hi
      intro hhead
      exact hop (htoken.symm.trans (hbears.symm.trans ((hx.bears hh').mpr hhead)))
    refine ⟨solo_withBroker rfl (dossier?_recordAnswer_of_ne hx.coherent hi hne ..), ?_⟩
    rcases hresult with ⟨-, rfl⟩ | ⟨-, rfl, -⟩
    · simpa using Ne.symm hne
    · exact List.not_mem_nil
  | broadcast => exact ⟨rfl, by simpa using Ne.symm hop⟩

theorem solo_perform_of_spares (ht : t.Accepts) (hx : Secluded id token x) {op : Operation ω}
    (hissued : op.Issues ⟨x.broker.nextId⟩ id token) (hop : op.Spares id token) :
    (x.perform t op).2.solo id = x.solo id := by
  obtain ⟨y, ids, he, hy⟩ := performs (t := t) hx.coherent op
  obtain ⟨hsame, hnot⟩ := he.solo_of_spares hx hissued hop
  rw [hy, solo_resolveAll ht (he.coherent hx.coherent) (he.ready hx.coherent), if_neg hnot, hsame]

theorem agrees_perform (ht : t.Accepts) (hx : Secluded id token x) {op : Operation ω}
    (hop : ¬op.Spares id token) (hteardown : ∀ s, op ≠ .teardown s) :
    Agrees id token ((x.solo id).perform id token x.broker.nextId op) (x.perform t op) := by
  cases op with
  | openSession uid channel => exact .of_view (view_openSession hx.coherent uid channel)
  | register s f => exact .of_view (view_register s f)
  | unregister s f => exact .of_view (view_unregister s f)
  | createHead m waiter => exact .of_view (view_createHead m waiter)
  | setWaiter id' waiter =>
    obtain rfl : id' = id := not_not.mp hop
    rw [Solo.perform, if_pos rfl]
    exact .of_view (view_setWaiter waiter)
  | abandon id' =>
    obtain rfl : id' = id := not_not.mp hop
    rw [Solo.perform, if_pos rfl]
    exact .of_view (view_abandon hx.coherent)
  | dispatch s id' =>
    obtain rfl : id' = id := not_not.mp hop
    rw [Solo.perform, if_pos rfl, ← view_dispatch ht hx s]
    exact .of_view rfl
  | dispatchAll id' =>
    obtain rfl : id' = id := not_not.mp hop
    rw [Solo.perform, if_pos rfl]
    exact .of_view (view_dispatchAll ht hx)
  | answer s token' verdict delegate =>
    obtain rfl : token' = token := not_not.mp hop
    rw [Solo.perform, if_pos rfl]
    exact agrees_answer ht hx s verdict delegate
  | broadcast id' =>
    obtain rfl : id' = id := not_not.mp hop
    rw [Solo.perform, if_pos rfl, ← view_broadcast ht hx.coherent]
    exact .of_view rfl
  | teardown s => exact absurd rfl (hteardown s)

theorem solo_perform (ht : t.Accepts) (hx : Secluded id token x) (op : Operation ω)
    (hissued : op.Issues ⟨x.broker.nextId⟩ id token) :
    (x.perform t op).2.solo id = ((x.solo id).perform id token x.broker.nextId op).2 := by
  by_cases hop : op.Spares id token
  · rw [solo_perform_of_spares ht hx hissued hop, Solo.perform_of_spares id token hop hissued]
  · by_cases hteardown : ∃ s, op = .teardown s
    · obtain ⟨s, rfl⟩ := hteardown
      exact solo_teardown ht hx.coherent s
    · exact (agrees_perform ht hx hop fun s hs => hteardown ⟨s, hs⟩).solo

end Exchange

end Arbiter
