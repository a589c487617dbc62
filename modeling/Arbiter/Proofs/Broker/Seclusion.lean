import Arbiter.Proofs.Broker.Memory
import Arbiter.Proofs.Broker.Outlook

/-!
An event whose token no other event bears, over a transport that accepts everything. No session is
lost, and a session has the token among those it settled only when the event is resolved.
-/

namespace Arbiter

theorem Session.settled_foldl_hear {token token' : UInt64} {s : Session} {sends : List Send}
    (h : (sends.foldl (Session.hear token') s).settled.contains token = true) :
    s.settled.contains token = true ∨ token' = token := by
  induction sends generalizing s with
  | nil => exact .inl h
  | cons send sends ih => exact (ih h).elim Settled.of_insert .inr

theorem Session.lost_foldl_hear {token : UInt64} {s : Session} {sends : List Send}
    (hs : s.lost = false) (hok : ∀ send ∈ sends, send.result = .ok ()) :
    (sends.foldl (Session.hear token) s).lost = false := by
  induction sends generalizing s with
  | nil => exact hs
  | cons send sends ih =>
    refine ih ?_ fun send' hsend => hok send' (List.mem_cons_of_mem _ hsend)
    rw [Session.hear, hok send (List.mem_cons_self ..), hs]
    rfl

namespace Exchange

variable {ω σ : Type} {t : Transport σ} {x y z : Exchange ω σ} {id id' : HeadId} {token : UInt64}

structure Secluded (id : HeadId) (token : UInt64) (x : Exchange ω σ) : Prop where
  coherent : x.broker.Coherent
  bears {id' h} : x.broker.heads.get? id' = some h → (h.token = token ↔ id' = id)
  decider {h d} : x.broker.heads.get? id = some h → h.decider = some d →
    d.inst.number < x.broker.nextId
  gone : id ∈ x.resolved → x.broker.heads.get? id = none ∧ id.number < x.broker.nextId
  settled {s sess} : x.broker.sessions.get? s = some sess →
    sess.settled.contains token = true → id ∈ x.resolved
  attended {s sess} : x.broker.sessions.get? s = some sess → sess.lost = false

theorem secluded_start (id : HeadId) (token : UInt64) (capacity : Nat) (transport : σ) :
    Secluded id token (start (.new capacity : Broker ω) transport) where
  coherent := Broker.coherent_new capacity
  bears h := by cases h
  decider h := by cases h
  gone h := by cases h
  settled h := by cases h
  attended h := by cases h

namespace Secluded

theorem send (hx : Secluded id token x) (purpose : Purpose) (channel : ChannelId) (m : Message) :
    Secluded id token (x.send t purpose channel m).2 :=
  ⟨hx.coherent, hx.bears, hx.decider, hx.gone, hx.settled, hx.attended⟩

theorem addInstance (hx : Secluded id token x) {s : SessionId} {sess : Session} {h : Head ω}
    (hs : x.broker.sessions.get? s = some sess) (hh : x.broker.heads.get? id' = some h)
    (hkind : h.kind = .ask) (hfree : sess.pending.get? h.token = none) :
    Secluded id token (x.withBroker (x.broker.addInstance s id' h.token)) := by
  have hhead := Broker.heads_addInstance hh s h.token
  have hsession := Broker.sessions_addInstance hs id' h.token
  refine ⟨hx.coherent.addInstance hs hh hkind hfree, fun {id'' h'} hh' => ?bears,
    fun {h' d} hh' hd => ?decider, fun hid => ?gone, fun {s' sess'} hs' hsettled => ?settled,
    fun {s' sess'} hs' => ?attended⟩
  case bears =>
    rw [withBroker, hhead] at hh'
    split at hh'
    · subst id''
      cases hh'
      exact hx.bears (h := h) hh
    · exact hx.bears hh'
  case decider =>
    rw [withBroker, hhead] at hh'
    refine Nat.lt_succ_of_lt ?_
    split at hh'
    · subst id'
      cases hh'
      exact hx.decider hh hd
    · exact hx.decider hh' hd
  case gone =>
    obtain ⟨habsent, hlt⟩ := hx.gone hid
    refine ⟨?_, Nat.lt_succ_of_lt hlt⟩
    rw [withBroker, hhead, if_neg, habsent]
    rintro rfl
    rw [hh] at habsent
    cases habsent
  case settled =>
    rw [withBroker, hsession] at hs'
    split at hs'
    · cases hs'
      exact hx.settled hs (Settled.of_forget hsettled)
    · exact hx.settled hs' hsettled
  case attended =>
    rw [withBroker, hsession] at hs'
    split at hs'
    · cases hs'
      show sess.lost = false
      exact hx.attended hs
    · exact hx.attended hs'

theorem dispatch (ht : t.Accepts) (hx : Secluded id token x) (s : SessionId) (id' : HeadId) :
    Secluded id token (x.dispatch t s id').2 := by
  have hspec := dispatch_spec t x s id'
  generalize x.dispatch t s id' = outcome at hspec ⊢
  obtain ⟨result, y⟩ := outcome
  cases hspec with
  | unknownSession | unknownHead | notInterested | duplicate => exact hx
  | refused _ _ _ hsend =>
    rw [Exchange.send, ht] at hsend
    cases hsend
  | sent => exact hx.send ..
  | queued hs hh _ hkind hfree => exact (hx.send ..).addInstance hs hh hkind hfree

end Secluded

theorem offer_eq (ht : t.Accepts) (id : HeadId) (n : Nat) (x : Exchange ω σ) (s : SessionId) :
    offer t id (n, x) s = (Solo.tally n (x.dispatch t s id).1, (x.dispatch t s id).2) := by
  have hspec := dispatch_spec t x s id
  cases hd : x.dispatch t s id with
  | mk result y =>
    rw [hd] at hspec
    simp only [offer, hd]
    cases hspec with
    | refused _ _ _ hsend =>
      rw [send, ht] at hsend
      cases hsend
    | unknownSession | unknownHead | duplicate => exact if_neg (by simp [Refusal.IsSend])
    | _ => rfl

namespace Secluded

theorem dispatchAll (ht : t.Accepts) (hx : Secluded id token x) (id' : HeadId) :
    Secluded id token (x.dispatchAll t id').2 := by
  have hfold (ss : List SessionId) (n : Nat) {y : Exchange ω σ} (hy : Secluded id token y) :
      Secluded id token (ss.foldl (offer t id') (n, y)).2 := by
    induction ss generalizing n y with
    | nil => exact hy
    | cons s ss ih =>
      rw [List.foldl_cons, offer_eq ht]
      exact ih _ (hy.dispatch ht s id')
  unfold Exchange.dispatchAll
  split
  · exact hfold _ 0 hx
  · exact hx

theorem broadcast (hx : Secluded id token x) {h : Head ω} {new : List Send}
    (hspec : Broadcast id' h x y new) (hh : x.broker.heads.get? id' = some h)
    (hok : ∀ send ∈ new, send.result = .ok ()) : Secluded id token y where
  coherent := hspec.coherent hx.coherent hh
  bears {id'' h'} hh' := by
    rw [hspec.heads, Table.get?_erase] at hh'
    split at hh'
    · cases hh'
    · exact hx.bears hh'
  decider {h' d} hh' hd := by
    rw [hspec.heads, Table.get?_erase] at hh'
    rw [hspec.nextId]
    split at hh'
    · cases hh'
    · exact hx.decider hh' hd
  gone hid := by
    rw [hspec.heads, hspec.nextId, Table.get?_erase]
    rw [hspec.resolved, List.mem_append, List.mem_singleton] at hid
    rcases hid with hid | rfl
    · obtain ⟨habsent, hlt⟩ := hx.gone hid
      exact ⟨by rw [habsent, ite_self], hlt⟩
    · refine ⟨if_pos rfl, Nat.lt_of_not_le fun hle => ?_⟩
      rw [hx.coherent.head_fresh hle] at hh
      cases hh
  settled {s sess'} hs' hsettled := by
    rw [hspec.sessions] at hs'
    obtain ⟨sess, hs, rfl⟩ := Option.map_eq_some_iff.mp hs'
    rw [hspec.resolved, List.mem_append, List.mem_singleton]
    -- A token that is settled by this broadcast is the token of its head.
    exact (Session.settled_foldl_hear hsettled).imp (hx.settled hs) fun htoken =>
      ((hx.bears hh).mp htoken).symm
  attended {s sess'} hs' := by
    rw [hspec.sessions] at hs'
    obtain ⟨sess, hs, rfl⟩ := Option.map_eq_some_iff.mp hs'
    exact Session.lost_foldl_hear (hx.attended hs) fun send hsend =>
      hok send (List.mem_of_mem_filter hsend)

section Effect

variable {op : Operation ω} {r : Response} {ids : List HeadId}

theorem effect_bears (hx : Secluded id token x) (he : Effect t x op r y ids)
    (hissued : op.Issues ⟨x.broker.nextId⟩ id token) {h' : Head ω}
    (hh' : y.broker.heads.get? id' = some h') : h'.token = token ↔ id' = id := by
  have hchange := he.subject hx.coherent id'
  rw [hh', Option.map_some] at hchange
  generalize hsubject : some h'.subject = subject at hchange
  cases hchange with
  | same =>
    obtain ⟨h, hh, hsame⟩ := Option.map_eq_some_iff.mp hsubject.symm
    rw [← show h.token = h'.token from congrArg (fun p => p.2.1) hsame]
    exact hx.bears hh
  | created hop _ hid hm =>
    have htoken := congrArg (fun p => p.2.1) (Option.some.inj hsubject)
    rw [show h'.token = _ from htoken, hid]
    exact hissued _ (hop ▸ Message.eventToken?_eq hm)
  | waiterSet _ hh =>
    have htoken := congrArg (fun p => p.2.1) (Option.some.inj hsubject)
    rw [show h'.token = _ from htoken]
    exact hx.bears hh
  | abandoned => cases hsubject

theorem effect_decider (hx : Secluded id token x) (he : Effect t x op r y ids) {h' : Head ω}
    {d : Decider} (hh' : y.broker.heads.get? id = some h') (hd : h'.decider = some d) :
    d.inst.number < y.broker.nextId := by
  have hnext := (he.quiet hx.coherent).nextId
  have hkept (hsame : (y.broker.heads.get? id).map Head.account =
      (x.broker.heads.get? id).map Head.account) : d.inst.number < y.broker.nextId := by
    rw [hh', Option.map_some, eq_comm, Option.map_eq_some_iff] at hsame
    obtain ⟨h, hh, hsame⟩ := hsame
    have hdecider : h.decider = h'.decider := congrArg (fun p => p.2.2.1) hsame
    exact Nat.lt_of_lt_of_le (hx.decider hh (hdecider.trans hd)) hnext
  cases he with
  | offered _ _ hy => exact hkept (offers_account hy id)
  | tornDown hs => exact hkept ((closing_spec hx.coherent hs).1.account hx.coherent id)
  | created =>
    rw [withBroker, Table.get?_insert] at hh'
    split at hh'
    · cases hh'
      cases hd
    · exact hkept (congrArg _ ((Table.get?_insert ..).trans (if_neg ‹_›)))
  | waiterSet =>
    rw [withBroker, Broker.modifyHead, Table.get?_modify] at hh'
    split at hh'
    · obtain ⟨h, hh, rfl⟩ := Option.map_eq_some_iff.mp hh'
      exact hx.decider hh hd
    · exact hx.decider hh' hd
  | abandoned =>
    rw [withBroker, Table.get?_erase] at hh'
    split at hh'
    · cases hh'
    · exact hx.decider hh' hd
  | @answered s token' sess i inst h _ _ _ _ _ _ hi hh =>
    rw [withBroker, Broker.heads_recordAnswer hh] at hh'
    split at hh'
    · cases hh'
      cases hd
      refine Nat.lt_of_not_le fun hle => ?_
      rw [hx.coherent.instance_fresh hle] at hi
      cases hi
    · exact hx.decider hh' hd
  | _ => exact hkept rfl

theorem effect (hx : Secluded id token x) (he : Effect t x op r y ids)
    (hop : ∀ id', op ≠ .dispatchAll id' ∧ ∀ s, op ≠ .dispatch s id')
    (hissued : op.Issues ⟨x.broker.nextId⟩ id token) : Secluded id token y where
  coherent := he.coherent hx.coherent
  bears hh := hx.effect_bears he hissued hh
  decider hh hd := hx.effect_decider he hh hd
  gone hid := by
    have hquiet := he.quiet hx.coherent
    obtain ⟨habsent, hlt⟩ := hx.gone (hquiet.resolved ▸ hid)
    exact ⟨he.absent_of_issued hx.coherent hlt habsent, Nat.lt_of_lt_of_le hlt hquiet.nextId⟩
  settled {s sess'} hs' hsettled := by
    rw [(he.quiet hx.coherent).resolved]
    rcases he.session_cases hx.coherent hop hs' with ⟨-, uid, channel, rfl⟩ | ⟨sess, regs, hs, rfl⟩
    · cases hsettled
    · exact hx.settled hs hsettled
  attended {s sess'} hs' := by
    rcases he.session_cases hx.coherent hop hs' with ⟨-, uid, channel, rfl⟩ | ⟨sess, regs, hs, rfl⟩
    · rfl
    · have hkept := hx.attended hs
      exact hkept

end Effect

theorem resolveAll (ht : t.Accepts) {ready : List HeadId} (hx : Secluded id token x)
    (hr : Ready x.broker ready) : Secluded id token (x.resolveAll t ready) := by
  induction ready generalizing x with
  | nil => exact hx
  | cons id' rest ih =>
    obtain ⟨h, hh⟩ := hr.present (List.mem_cons_self ..)
    obtain ⟨new, hspec, hok⟩ := broadcast_accepted ht hx.coherent hh
    exact ih (hx.broadcast hspec hh hok) (hr.tail hspec)

theorem perform (ht : t.Accepts) (hx : Secluded id token x) (op : Operation ω)
    (hissued : op.Issues ⟨x.broker.nextId⟩ id token) : Secluded id token (x.perform t op).2 := by
  cases op with
  | dispatch s id' => exact hx.dispatch ht s id'
  | dispatchAll id' => exact hx.dispatchAll ht id'
  | _ =>
    obtain ⟨y, ids, he, hy⟩ := performs (t := t) hx.coherent _
    rw [hy]
    exact (hx.effect he (fun _ => ⟨nofun, nofun⟩) hissued).resolveAll ht (he.ready hx.coherent)

end Secluded

end Exchange

end Arbiter
