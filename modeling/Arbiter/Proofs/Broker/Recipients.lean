import Arbiter.Proofs.Broker.Outlook

/-!
Who is offered an event that goes out to all. Whatever was asked of the broker, its sessions stand
in the order of their ids, so a fan-out passes through them in that order. To each it brings the
event or passes it by, and what comes of that changes this session, the head and the arena alone:
the offers before it make no difference to whether the session wants the event.
-/

namespace Arbiter

variable {ω σ : Type}

section Tables

variable {κ α : Type} [DecidableEq κ] {t : Table κ α} {k : κ}

theorem Table.exists_of_mem_keys (h : k ∈ t.keys) : ∃ a, t.get? k = some a := by
  obtain ⟨⟨k, a⟩, hmem, rfl⟩ := List.mem_map.mp h
  exact ⟨a, Table.get?_eq_some.mpr hmem⟩

theorem Table.mem_filter_entries {p : α → Bool} :
    k ∈ (t.entries.filter (p ·.2)).map Prod.fst ↔ ∃ a, t.get? k = some a ∧ p a = true := by
  constructor
  · intro h
    obtain ⟨⟨k, a⟩, hmem, rfl⟩ := List.mem_map.mp h
    obtain ⟨hmem, hp⟩ := List.mem_filter.mp hmem
    exact ⟨a, Table.get?_eq_some.mpr hmem, hp⟩
  · rintro ⟨a, ha, hp⟩
    exact List.mem_map.mpr ⟨(k, a), List.mem_filter.mpr ⟨Table.get?_eq_some.mp ha, hp⟩, rfl⟩

theorem Table.keys_erase_sublist : (t.erase k).keys.Sublist t.keys :=
  List.filter_sublist.map _

end Tables

namespace Broker

def Ordered (b : Broker ω) : Prop := b.sessions.keys.Pairwise (·.number < ·.number)

theorem Ordered.congr {b b' : Broker ω} (ho : b.Ordered)
    (h : b'.sessions.keys = b.sessions.keys) : b'.Ordered := by
  rw [Ordered, h]
  exact ho

theorem Ordered.openSession {b : Broker ω} (ho : b.Ordered) (hb : b.Coherent) (uid : UInt32)
    (channel : ChannelId) : (b.openSession uid channel).2.Ordered := by
  have hfresh := hb.session_fresh (s := ⟨b.nextId⟩) (Nat.le_refl _)
  rw [Ordered, Broker.openSession, Table.keys, Table.entries_insert _ _ _ hfresh, List.map_append,
    List.pairwise_append]
  refine ⟨ho, List.pairwise_singleton _ _, fun s hs s' hs' => ?_⟩
  obtain ⟨sess, hsess⟩ := Table.exists_of_mem_keys hs
  obtain rfl : s' = ⟨b.nextId⟩ := List.mem_singleton.mp hs'
  exact hb.session_issued hsess

theorem mem_lostSessions {b : Broker ω} {s : SessionId} :
    s ∈ b.lostSessions ↔ ∃ sess, b.sessions.get? s = some sess ∧ sess.lost = true :=
  Table.mem_filter_entries

theorem mem_reachableSessions {b : Broker ω} {s : SessionId} :
    s ∈ b.reachableSessions ↔ ∃ sess, b.sessions.get? s = some sess ∧ sess.lost = false := by
  simp only [reachableSessions, Table.mem_filter_entries (p := fun sess : Session => !sess.lost),
    Bool.not_eq_true']

/-- The session has the event coming to it: a filter of its own selects it, and a question under
its token is not before the session already. -/
def Wants (b : Broker ω) (h : Head ω) (s : SessionId) : Prop :=
  ∃ sess, b.sessions.get? s = some sess ∧ (∃ f ∈ sess.registrations, f.selects h.key = true) ∧
    (h.kind = .ask → sess.pending.get? h.token = none)

end Broker

theorem Session.interested_eq_true {sess : Session} {key : Filter} :
    sess.interested key = true ↔ ∃ f ∈ sess.registrations, f.selects key = true :=
  List.any_eq_true

namespace Exchange

variable {t : Transport σ} {x y z : Exchange ω σ} {id : HeadId} {h : Head ω}

theorem Offer.order (ho : Offer t id x y) : y.broker.sessions.keys = x.broker.sessions.keys := by
  cases ho with
  | sent => rfl
  | queued => exact Broker.keys_modifySession ..
  | lost s => exact Broker.keys_markLost ..

theorem offers_order (ho : Relation.ReflTransGen (Offer t id) x y) :
    y.broker.sessions.keys = x.broker.sessions.keys := by
  induction ho with
  | refl => rfl
  | tail _ hoffer ih => exact hoffer.order.trans ih

theorem resolveAll_order (t : Transport σ) (x : Exchange ω σ) (ready : List HeadId) :
    (x.resolveAll t ready).broker.sessions.keys = x.broker.sessions.keys := by
  induction ready generalizing x with
  | nil => rfl
  | cons id rest ih => exact (ih _).trans (broadcast_order t x id)

theorem Effect.ordered {op : Operation ω} {r : Response} {ids : List HeadId}
    (he : Effect t x op r y ids) (hb : x.broker.Coherent) (ho : x.broker.Ordered) :
    y.broker.Ordered := by
  cases he with
  | opened uid channel => exact ho.openSession hb uid channel
  | registered => exact ho.congr (Broker.keys_modifySession ..)
  | offered _ _ hy => exact ho.congr (offers_order hy)
  | @tornDown s sess hs =>
    have hsessions := (closing_spec hb hs).1.sessions
    rw [Broker.Ordered, withBroker, hsessions]
    exact List.Pairwise.sublist Table.keys_erase_sublist ho
  | _ => exact ho

theorem ordered_run (t : Transport σ) (capacity : Nat) (transport : σ) (ops : List (Operation ω)) :
    (run t (start (.new capacity) transport) ops).2.broker.Ordered := by
  have hstart : (Broker.new capacity : Broker ω).Ordered := List.Pairwise.nil
  refine (run_induction (I := fun _ x => x.broker.Coherent ∧ x.broker.Ordered)
    ⟨Broker.coherent_new capacity, hstart⟩ (fun {_ x} op hx => ?_) ops).2
  refine ⟨coherent_perform hx.1 op, ?_⟩
  obtain ⟨y, ids, he, hy⟩ := performs (t := t) hx.1 op
  rw [hy]
  exact (he.ordered hx.1 hx.2).congr (resolveAll_order t y ids)

end Exchange

def takers (offers : List (SessionId × Send)) : List SessionId :=
  (offers.filter (·.2.result.isOk)).map Prod.fst

theorem takers_append (offers offers' : List (SessionId × Send)) :
    takers (offers ++ offers') = takers offers ++ takers offers' := by
  rw [takers, List.filter_append, List.map_append, takers, takers]

theorem mem_takers {offers : List (SessionId × Send)} {s : SessionId} :
    s ∈ takers offers ↔ ∃ send, (s, send) ∈ offers ∧ send.result = .ok () := by
  simp only [takers, List.mem_map, List.mem_filter, Prod.exists, exists_and_right, exists_eq_right]
  refine exists_congr fun send => and_congr_right fun _ => ?_
  cases send.result <;> simp [Except.isOk, Except.toBool]

theorem takers_subset {offers : List (SessionId × Send)} {s : SessionId} (hs : s ∈ takers offers) :
    s ∈ offers.map Prod.fst := by
  obtain ⟨send, hmem, -⟩ := mem_takers.mp hs
  exact List.mem_map_of_mem (f := Prod.fst) hmem

def Head.spread (h : Head ω) (copies : List (InstanceId × SessionId)) : Head ω :=
  { h with instances := h.instances ++ copies.map Prod.fst, live := h.live + copies.length }

@[simp] theorem Head.spread_nil (h : Head ω) : h.spread [] = h := by
  simp only [spread, List.map_nil, List.append_nil, List.length_nil, Nat.add_zero]

theorem Head.spread_append (h : Head ω) (copies copies' : List (InstanceId × SessionId)) :
    h.spread (copies ++ copies') = (h.spread copies).spread copies' := by
  simp only [spread, List.map_append, List.append_assoc, List.length_append, Nat.add_assoc]

namespace Exchange

variable {t : Transport σ} {x y z : Exchange ω σ} {id : HeadId} {h : Head ω}

/-- The event is sent to the session over its own channel as it came. -/
structure Brings (b : Broker ω) (id : HeadId) (h : Head ω) (s : SessionId) (send : Send) :
    Prop where
  purpose : send.purpose = .event s id
  channel : ∃ sess, b.sessions.get? s = some sess ∧ send.channel = sess.channel
  message : send.message = h.message

/-- From `x` to `y` the event was offered to some sessions, each of them named with what was sent
to it, and some of them were given the copies. -/
structure Distributed (id : HeadId) (h : Head ω) (offers : List (SessionId × Send))
    (copies : List (InstanceId × SessionId)) (x y : Exchange ω σ) : Prop where
  sends : y.sends = x.sends ++ offers.map Prod.snd
  brings {s send} : (s, send) ∈ offers → Brings x.broker id h s send
  asked : h.kind = .ask → copies.map Prod.snd = takers offers
  notified : h.kind = .notify → copies = []
  issued : copies.map Prod.fst = (List.range' x.broker.nextId copies.length).map InstanceId.mk
  nextId : y.broker.nextId = x.broker.nextId + copies.length
  head : y.broker.heads.get? id = some (h.spread copies)
  others {id'} : id' ≠ id → y.broker.heads.get? id' = x.broker.heads.get? id'
  instances : y.broker.instances.entries =
    x.broker.instances.entries ++ copies.map fun c => (c.1, .new h.token c.2 id)
  gained {i s sess} : (i, s) ∈ copies → x.broker.sessions.get? s = some sess →
    y.broker.sessions.get? s = some (sess.await h.token i)
  missed {s send e sess} : (s, send) ∈ offers → send.result = .error e →
    x.broker.sessions.get? s = some sess →
    y.broker.sessions.get? s = some { sess with lost := true }
  kept {s} : s ∉ copies.map Prod.snd → (∀ send, (s, send) ∈ offers → send.result = .ok ()) →
    y.broker.sessions.get? s = x.broker.sessions.get? s
  settledCapacity : y.broker.settledCapacity = x.broker.settledCapacity
  resolved : y.resolved = x.resolved
  completions : y.completions = x.completions

namespace Distributed

variable {offers offers' : List (SessionId × Send)} {copies copies' : List (InstanceId × SessionId)}

theorem refl (hh : x.broker.heads.get? id = some h) : Distributed id h [] [] x x := by
  constructor <;> simp [takers, hh]

theorem offered (hd : Distributed id h offers copies x y) {i : InstanceId} {s : SessionId}
    (hs : (i, s) ∈ copies) : s ∈ takers offers := by
  cases hkind : h.kind with
  | ask => exact hd.asked hkind ▸ List.mem_map_of_mem (f := Prod.snd) hs
  | notify =>
    rw [hd.notified hkind] at hs
    cases hs

theorem passed (hd : Distributed id h offers copies x y) {s : SessionId}
    (hs : s ∉ offers.map Prod.fst) : y.broker.sessions.get? s = x.broker.sessions.get? s := by
  refine hd.kept (fun hmem => hs ?_) fun send hmem =>
    absurd (List.mem_map_of_mem (f := Prod.fst) hmem) hs
  obtain ⟨⟨i, s⟩, hcopy, rfl⟩ := List.mem_map.mp hmem
  exact takers_subset (hd.offered hcopy)

theorem trans (hd : Distributed id h offers copies x y)
    (hd' : Distributed id (h.spread copies) offers' copies' y z)
    (hdisjoint : ∀ s ∈ offers.map Prod.fst, s ∉ offers'.map Prod.fst) :
    Distributed id h (offers ++ offers') (copies ++ copies') x z := by
  have hbefore {s send} (hs : (s, send) ∈ offers') :
      y.broker.sessions.get? s = x.broker.sessions.get? s :=
    hd.passed fun hmem => hdisjoint s hmem (List.mem_map_of_mem (f := Prod.fst) hs)
  have hafter {s send} (hs : (s, send) ∈ offers) :
      z.broker.sessions.get? s = y.broker.sessions.get? s :=
    hd'.passed (hdisjoint s (List.mem_map_of_mem (f := Prod.fst) hs))
  exact {
    sends := by rw [hd'.sends, hd.sends, List.append_assoc, List.map_append]
    brings := fun hs => by
      rcases List.mem_append.mp hs with hs | hs
      · exact hd.brings hs
      · have hb := hd'.brings hs
        exact ⟨hb.purpose, hbefore hs ▸ hb.channel, hb.message⟩
    asked := fun hkind => by
      rw [List.map_append, hd.asked hkind, hd'.asked hkind, takers_append]
    notified := fun hkind => by
      rw [hd.notified hkind, hd'.notified hkind, List.append_nil]
    issued := by
      rw [List.map_append, hd.issued, hd'.issued, hd.nextId, ← List.map_append,
        List.range'_append_1, List.length_append]
    nextId := by rw [hd'.nextId, hd.nextId, List.length_append, Nat.add_assoc]
    head := by rw [hd'.head, Head.spread_append]
    others := fun hne => (hd'.others hne).trans (hd.others hne)
    instances := by
      rw [hd'.instances, hd.instances, List.map_append, List.append_assoc]
      rfl
    gained := fun hs hsess => by
      rcases List.mem_append.mp hs with hs | hs
      · obtain ⟨send, hsend, -⟩ := mem_takers.mp (hd.offered hs)
        exact (hafter hsend).trans (hd.gained hs hsess)
      · obtain ⟨send, hsend, -⟩ := mem_takers.mp (hd'.offered hs)
        exact hd'.gained hs ((hbefore hsend).trans hsess)
    missed := fun hs he hsess => by
      rcases List.mem_append.mp hs with hs | hs
      · exact (hafter hs).trans (hd.missed hs he hsess)
      · exact hd'.missed hs he ((hbefore hs).trans hsess)
    kept := fun hs hok => by
      rw [List.map_append, List.mem_append, not_or] at hs
      exact (hd'.kept hs.2 fun send hsend => hok send (List.mem_append_right _ hsend)).trans
        (hd.kept hs.1 fun send hsend => hok send (List.mem_append_left _ hsend))
    settledCapacity := hd'.settledCapacity.trans hd.settledCapacity
    resolved := hd'.resolved.trans hd.resolved
    completions := hd'.completions.trans hd.completions }

end Distributed

section Offer

variable {s : SessionId} {sess : Session}

def brought (id : HeadId) (h : Head ω) (s : SessionId) (sess : Session)
    (result : Except SendRefusal Unit) : Send :=
  ⟨.event s id, sess.channel, h.message, result⟩

theorem brings_brought (hs : x.broker.sessions.get? s = some sess)
    (result : Except SendRefusal Unit) {s' : SessionId} {send : Send}
    (hmem : (s', send) ∈ [(s, brought id h s sess result)]) : Brings x.broker id h s' send := by
  obtain ⟨rfl, rfl⟩ := Prod.mk.inj (List.mem_singleton.mp hmem)
  exact ⟨rfl, ⟨sess, hs, rfl⟩, rfl⟩

theorem sends_brought {result : Except SendRefusal Unit}
    (hsend : (x.send t (.event s id) sess.channel h.message).1 = result) :
    (x.send t (.event s id) sess.channel h.message).2.sends =
      x.sends ++ [brought id h s sess result] := by
  rw [← hsend]
  exact send_sends ..

theorem not_error_of_brought {u : Unit} {s' : SessionId} {send : Send} {e : SendRefusal}
    (hmem : (s', send) ∈ [(s, brought id h s sess (.ok u))]) : send.result ≠ .error e := by
  obtain ⟨-, rfl⟩ := Prod.mk.inj (List.mem_singleton.mp hmem)
  exact nofun

theorem distributed_refused (hs : x.broker.sessions.get? s = some sess)
    (hh : x.broker.heads.get? id = some h) {e : SendRefusal}
    (hsend : (x.send t (.event s id) sess.channel h.message).1 = .error e) :
    Distributed id h [(s, brought id h s sess (.error e))] [] x
      ((x.send t (.event s id) sess.channel h.message).2.withBroker (x.broker.markLost s)) where
  sends := sends_brought hsend
  brings hmem := brings_brought hs _ hmem
  asked _ := rfl
  notified _ := rfl
  issued := rfl
  nextId := rfl
  head := hh.trans (by rw [Head.spread_nil])
  others _ := rfl
  instances := (List.append_nil _).symm
  gained hmem := absurd hmem List.not_mem_nil
  missed {s' _ _ sess'} hmem _ hs' := by
    obtain ⟨rfl, -⟩ := Prod.mk.inj (List.mem_singleton.mp hmem)
    exact (Table.get?_modify_of_get? hs' _ _).trans (if_pos rfl)
  kept {s'} _ hok := by
    refine (Table.get?_modify ..).trans (if_neg ?_)
    rintro rfl
    cases hok _ (List.mem_singleton_self _)
  settledCapacity := rfl
  resolved := rfl
  completions := rfl

theorem distributed_sent (hs : x.broker.sessions.get? s = some sess)
    (hh : x.broker.heads.get? id = some h) (hkind : h.kind = .notify)
    (hsend : (x.send t (.event s id) sess.channel h.message).1 = .ok ()) :
    Distributed id h [(s, brought id h s sess (.ok ()))] [] x
      (x.send t (.event s id) sess.channel h.message).2 where
  sends := sends_brought hsend
  brings hmem := brings_brought hs _ hmem
  asked hask := by
    rw [hkind] at hask
    cases hask
  notified _ := rfl
  issued := rfl
  nextId := rfl
  head := hh.trans (by rw [Head.spread_nil])
  others _ := rfl
  instances := (List.append_nil _).symm
  gained hmem := absurd hmem List.not_mem_nil
  missed hmem he := absurd he (not_error_of_brought hmem)
  kept _ _ := rfl
  settledCapacity := rfl
  resolved := rfl
  completions := rfl

theorem distributed_queued (hb : x.broker.Coherent) (hs : x.broker.sessions.get? s = some sess)
    (hh : x.broker.heads.get? id = some h) (hkind : h.kind = .ask)
    (hsend : (x.send t (.event s id) sess.channel h.message).1 = .ok ()) :
    Distributed id h [(s, brought id h s sess (.ok ()))] [(⟨x.broker.nextId⟩, s)] x
      ((x.send t (.event s id) sess.channel h.message).2.withBroker
        (x.broker.addInstance s id h.token)) where
  sends := sends_brought hsend
  brings hmem := brings_brought hs _ hmem
  asked _ := rfl
  notified hnotify := by
    rw [hkind] at hnotify
    cases hnotify
  issued := rfl
  nextId := rfl
  head := (Broker.heads_addInstance hh s h.token id).trans (if_pos rfl)
  others hne := (Broker.heads_addInstance hh s h.token _).trans (if_neg hne)
  instances := Table.entries_insert _ _ _ (hb.instance_fresh (Nat.le_refl _))
  gained {i s' sess'} hmem hs' := by
    obtain ⟨rfl, rfl⟩ := Prod.mk.inj (List.mem_singleton.mp hmem)
    exact (Broker.sessions_addInstance hs' id h.token _).trans (if_pos rfl)
  missed hmem he := absurd he (not_error_of_brought hmem)
  kept hnot _ := (Broker.sessions_addInstance hs id h.token _).trans
    (if_neg fun heq => hnot (List.mem_singleton.mpr heq))
  settledCapacity := rfl
  resolved := rfl
  completions := rfl

def Passes (id : HeadId) (h : Head ω) (ss : List SessionId) (n : Nat) (x : Exchange ω σ)
    (progress : Nat × Exchange ω σ) : Prop :=
  ∃ offers copies, (offers.map Prod.fst).Sublist ss ∧
    (∀ s, s ∈ offers.map Prod.fst ↔ s ∈ ss ∧ x.broker.Wants h s) ∧
    progress.1 = n + (takers offers).length ∧ Distributed id h offers copies x progress.2

theorem passes_of_not_wants (hh : x.broker.heads.get? id = some h) (hnot : ¬x.broker.Wants h s)
    (n : Nat) : Passes id h [s] n x (n, x) := by
  refine ⟨[], [], List.nil_sublist _, fun s' => iff_of_false List.not_mem_nil ?_, rfl, .refl hh⟩
  rintro ⟨hmem, hwants⟩
  exact hnot (List.mem_singleton.mp hmem ▸ hwants)

theorem passes_of_wants {send : Send} {copies : List (InstanceId × SessionId)}
    (hwants : x.broker.Wants h s) (hd : Distributed id h [(s, send)] copies x y) (n : Nat) :
    Passes id h [s] n x (n + (takers [(s, send)]).length, y) := by
  refine ⟨[(s, send)], copies, List.Sublist.refl _, fun s' => ⟨?_, And.left⟩, rfl, hd⟩
  intro hmem
  obtain rfl : s' = s := List.mem_singleton.mp hmem
  exact ⟨hmem, hwants⟩

theorem wants_iff (hs : x.broker.sessions.get? s = some sess) : x.broker.Wants h s ↔
    sess.interested h.key = true ∧ (h.kind = .ask → sess.pending.get? h.token = none) := by
  rw [Session.interested_eq_true]
  constructor
  · rintro ⟨sess', hs', hwants⟩
    obtain rfl : sess = sess' := Option.some.inj (hs.symm.trans hs')
    exact hwants
  · exact fun hwants => ⟨sess, hs, hwants⟩

theorem free_of_refused (hs : x.broker.sessions.get? s = some sess)
    (hh : x.broker.heads.get? id = some h) (hkey : sess.interested h.key = true)
    {e : SendRefusal} (hd : (x.dispatch t s id).1 = .error (.ofSend e)) (hkind : h.kind = .ask) :
    sess.pending.get? h.token = none := by
  by_contra hpending
  have hheld : sess.pending.contains h.token = true := Option.isSome_iff_ne_none.mpr hpending
  simp only [dispatch, hs, hh, hkey, hkind, hheld, Bool.not_true, Bool.false_eq_true, ↓reduceIte,
    Except.error.injEq] at hd
  cases e <;> cases hd

theorem offer_passes (t : Transport σ) (hb : x.broker.Coherent)
    (hh : x.broker.heads.get? id = some h) (n : Nat) (s : SessionId) :
    Passes id h [s] n x (offer t id (n, x) s) := by
  have hspec := dispatch_spec t x s id
  cases hd : x.dispatch t s id with
  | mk result y =>
    rw [hd] at hspec
    simp only [offer, hd]
    cases hspec with
    | unknownSession hs =>
      refine passes_of_not_wants hh ?_ n
      rintro ⟨sess, hs', -⟩
      rw [hs] at hs'
      cases hs'
    | unknownHead hs hh' =>
      rw [hh'] at hh
      cases hh
    | notInterested hs hh' hkey =>
      obtain rfl := Option.some.inj (hh.symm.trans hh')
      refine passes_of_not_wants hh ?_ n
      rw [wants_iff hs, hkey]
      simp
    | duplicate hs hh' hkey hkind hpending =>
      obtain rfl := Option.some.inj (hh.symm.trans hh')
      refine passes_of_not_wants hh ?_ n
      rw [wants_iff hs, hkind, hpending]
      simp
    | @refused sess h' cause hs hh' hkey hsend =>
      obtain rfl := Option.some.inj (hh.symm.trans hh')
      have hcause : (Refusal.ofSend cause).IsSend := by cases cause <;> decide
      have hresult : (x.dispatch t s id).1 = .error (.ofSend cause) := congrArg Prod.fst hd
      have hwants := (wants_iff (h := h) hs).mpr ⟨hkey, free_of_refused hs hh hkey hresult⟩
      simp only [if_pos hcause]
      exact passes_of_wants hwants (distributed_refused hs hh hsend) n
    | sent hs hh' hkey hkind hsend =>
      obtain rfl := Option.some.inj (hh.symm.trans hh')
      have hwants := (wants_iff (h := h) hs).mpr ⟨hkey, by simp [hkind]⟩
      exact passes_of_wants hwants (distributed_sent hs hh hkind hsend) n
    | queued hs hh' hkey hkind hfree hsend =>
      obtain rfl := Option.some.inj (hh.symm.trans hh')
      have hwants := (wants_iff (h := h) hs).mpr ⟨hkey, fun _ => hfree⟩
      exact passes_of_wants hwants (distributed_queued hb hs hh hkind hsend) n

theorem offer_offers (t : Transport σ) (id : HeadId) (n : Nat) (x : Exchange ω σ) (s : SessionId) :
    Relation.ReflTransGen (Offer t id) x (offer t id (n, x) s).2 := by
  have hdispatch := dispatch_offers t x s id
  cases hd : x.dispatch t s id with
  | mk result y =>
    rw [hd] at hdispatch
    simp only [offer, hd]
    split
    · rename_i heq
      obtain ⟨-, rfl⟩ := Prod.mk.inj heq
      exact hdispatch
    · rename_i heq
      obtain ⟨-, rfl⟩ := Prod.mk.inj heq
      exact hdispatch
    · rename_i heq
      obtain ⟨-, rfl⟩ := Prod.mk.inj heq
      split
      · exact hdispatch.tail (.lost s)
      · exact hdispatch

end Offer

theorem Distributed.wants_iff {offers : List (SessionId × Send)}
    {copies : List (InstanceId × SessionId)} (hd : Distributed id h offers copies x y)
    {s : SessionId} (hs : s ∉ offers.map Prod.fst) :
    y.broker.Wants (h.spread copies) s ↔ x.broker.Wants h s := by
  simp only [Broker.Wants, hd.passed hs]
  rfl

theorem foldl_offer_passes (t : Transport σ) {ss : List SessionId} (hss : ss.Nodup)
    (hb : x.broker.Coherent) (hh : x.broker.heads.get? id = some h) (n : Nat) :
    Passes id h ss n x (ss.foldl (offer t id) (n, x)) := by
  induction ss generalizing n x h with
  | nil => exact ⟨[], [], List.nil_sublist _, fun s => by simp, rfl, .refl hh⟩
  | cons s ss ih =>
    obtain ⟨hnot, hss⟩ := List.nodup_cons.mp hss
    obtain ⟨offers, copies, hsub, hmem, hcount, hd⟩ := offer_passes t hb hh n s
    have hb' := offers_coherent (offer_offers t id n x s) hb
    obtain ⟨offers', copies', hsub', hmem', hcount', hd'⟩ :=
      ih hss hb' hd.head (offer t id (n, x) s).1
    have hfirst {s'} (hs' : s' ∈ offers.map Prod.fst) : s' = s :=
      List.mem_singleton.mp (hsub.subset hs')
    -- The sessions that follow are others, so the first offer left them as they were.
    have hrest {s'} (hs' : s' ∈ ss) : s' ∉ offers.map Prod.fst :=
      fun hmem => hnot (hfirst hmem ▸ hs')
    refine ⟨offers ++ offers', copies ++ copies', ?_, fun s' => ?_, ?_,
      hd.trans hd' fun s' hs' hs'' => hrest (hsub'.subset hs'') hs'⟩
    · rw [List.map_append]
      exact hsub.append hsub'
    · rw [List.map_append, List.mem_append, hmem, hmem', List.mem_singleton, List.mem_cons,
        or_and_right]
      exact or_congr_right (and_congr_right fun hs' => hd.wants_iff (hrest hs'))
    · rw [takers_append, List.length_append, ← Nat.add_assoc, ← hcount]
      exact hcount'

theorem Distributed.lost_iff {offers : List (SessionId × Send)}
    {copies : List (InstanceId × SessionId)} (hd : Distributed id h offers copies x y)
    {s : SessionId} : s ∈ y.broker.lostSessions ↔
      s ∈ x.broker.lostSessions ∨ ∃ send e, (s, send) ∈ offers ∧ send.result = .error e := by
  simp only [Broker.mem_lostSessions]
  by_cases hrefused : ∃ send e, (s, send) ∈ offers ∧ send.result = .error e
  · obtain ⟨send, e, hmem, he⟩ := hrefused
    obtain ⟨sess, hs, -⟩ := (hd.brings hmem).channel
    exact iff_of_true ⟨_, hd.missed hmem he hs, rfl⟩ (.inr ⟨send, e, hmem, he⟩)
  · rw [or_iff_left hrefused]
    by_cases hcopy : s ∈ copies.map Prod.snd
    · obtain ⟨⟨i, s⟩, hgot, rfl⟩ := List.mem_map.mp hcopy
      obtain ⟨send, hmem, -⟩ := mem_takers.mp (hd.offered hgot)
      obtain ⟨sess, hs, -⟩ := (hd.brings hmem).channel
      simp only [hd.gained hgot hs, hs, Option.some.injEq, exists_eq_left']
      rfl
    · rw [hd.kept hcopy fun send hmem => ?_]
      cases hresult : send.result with
      | ok => rfl
      | error e => exact absurd ⟨send, e, hmem, hresult⟩ hrefused

/-- An event went out to all: to every session in reach that wants it and to no other, one after
another in the order of their ids. -/
structure FannedOut (t : Transport σ) (id : HeadId) (h : Head ω) (x : Exchange ω σ)
    (offers : List (SessionId × Send)) (copies : List (InstanceId × SessionId))
    (outcome : Except Refusal Nat × Exchange ω σ) : Prop where
  recipients {s} : s ∈ offers.map Prod.fst ↔ ∃ sess, x.broker.sessions.get? s = some sess ∧
    sess.lost = false ∧ (∃ f ∈ sess.registrations, f.selects h.key = true) ∧
    (h.kind = .ask → sess.pending.get? h.token = none)
  ascending : (offers.map Prod.fst).Pairwise (·.number < ·.number)
  emits : Emits t x outcome.2
  count : outcome.1 = .ok (takers offers).length
  distributed : Distributed id h offers copies x outcome.2
  pending {i s} : (i, s) ∈ copies → ∃ inst, outcome.2.broker.Holds s id i inst ∧
    inst.token = h.token ∧ inst.state = .pending
  live : ∃ h', outcome.2.broker.heads.get? id = some h' ∧
    h'.live = h.live + if h.kind = .ask then (takers offers).length else 0
  lost {s} : s ∈ outcome.2.broker.lostSessions ↔
    s ∈ x.broker.lostSessions ∨ ∃ send e, (s, send) ∈ offers ∧ send.result = .error e

theorem fannedOut_of_present (t : Transport σ) (hb : x.broker.Coherent) (ho : x.broker.Ordered)
    (hh : x.broker.heads.get? id = some h) :
    ∃ offers copies, FannedOut t id h x offers copies (x.dispatchAll t id) := by
  have hreach : x.broker.reachableSessions.Sublist x.broker.sessions.keys :=
    List.filter_sublist.map _
  have hemits := dispatchAll_emits t x id
  obtain ⟨offers, copies, hsub, hmem, hcount, hd⟩ :=
    foldl_offer_passes t (hreach.nodup x.broker.sessions.nodup) hb hh 0
  rw [Nat.zero_add] at hcount
  refine ⟨offers, copies, ?_⟩
  unfold dispatchAll at hemits ⊢
  rw [if_pos (by rw [Table.contains, hh]; rfl)] at hemits ⊢
  exact {
    recipients := fun {s} => by
      rw [hmem, Broker.mem_reachableSessions]
      constructor
      · rintro ⟨⟨sess, hs, hlost⟩, sess', hs', hwants⟩
        obtain rfl : sess = sess' := Option.some.inj (hs.symm.trans hs')
        exact ⟨sess, hs, hlost, hwants⟩
      · rintro ⟨sess, hs, hlost, hwants⟩
        exact ⟨⟨sess, hs, hlost⟩, sess, hs, hwants⟩
    ascending := List.Pairwise.sublist (hsub.trans hreach) ho
    emits := hemits
    count := congrArg Except.ok hcount
    distributed := hd
    pending := fun {i s} hcopy => by
      refine ⟨.new h.token s id, ⟨Table.get?_eq_some.mpr ?_, rfl, rfl⟩, rfl, rfl⟩
      rw [hd.instances]
      exact List.mem_append_right _ (List.mem_map_of_mem hcopy)
    live := by
      refine ⟨_, hd.head, congrArg (h.live + ·) ?_⟩
      cases hkind : h.kind with
      | ask => rw [if_pos rfl, ← hd.asked hkind, List.length_map]
      | notify => rw [if_neg (by decide), hd.notified hkind, List.length_nil]
    lost := hd.lost_iff }

/-- Whatever was asked of the broker before, and whichever sends are refused. -/
theorem fannedOut_run (t : Transport σ) (capacity : Nat) (transport : σ) (ops : List (Operation ω))
    (hh : (run t (start (.new capacity) transport) ops).2.broker.heads.get? id = some h) :
    let x := (run t (start (.new capacity) transport) ops).2
    ∃ offers copies, FannedOut t id h x offers copies (x.dispatchAll t id) :=
  fannedOut_of_present t (coherent_run t capacity transport ops)
    (ordered_run t capacity transport ops) hh

/-- Of the sessions that registered for it the first has another question under the token before it
and the last cannot be reached. -/
theorem fannedOut_run_one_of_three :
    let t : Transport Unit :=
      ⟨fun _ channel _ => (if channel = ⟨3⟩ then .error .closed else .ok (), ())⟩
    let ask : Message := .ofBytes ([0, 0, 0, 64, 0, 0, 32, 3, 0, 0, 0, 0, 0, 0, 0, 7, 0, 0, 0, 0, 0,
      0, 0, 5] ++ List.replicate 40 0)
    let ops : List (Operation String) :=
      [.openSession 0 ⟨1⟩, .openSession 0 ⟨2⟩, .openSession 0 ⟨3⟩, .register ⟨1⟩ ⟨5, 0, 0⟩,
        .createHead ask none, .dispatchAll ⟨4⟩, .register ⟨2⟩ ⟨5, 0, 0⟩, .register ⟨3⟩ ⟨5, 0, 0⟩,
        .createHead ask none]
    let x := (run t (start (.new 4) ()) ops).2
    (x.dispatchAll t ⟨6⟩).1.toOption = some 1 ∧
      (x.dispatchAll t ⟨6⟩).2.broker.lostSessions = [⟨3⟩] ∧
      ∃ h, x.broker.heads.get? ⟨6⟩ = some h ∧
        ∃ offers copies, FannedOut t ⟨6⟩ h x offers copies (x.dispatchAll t ⟨6⟩) := by
  intro t ask ops x
  have hx : x = (run t (start (.new 4) ()) ops).2 := rfl
  clear_value x
  rw [hx]
  obtain ⟨h, hh⟩ : ∃ h, (run t (start (.new 4) ()) ops).2.broker.heads.get? ⟨6⟩ = some h :=
    Option.isSome_iff_exists.mp (by decide +kernel)
  exact ⟨by decide +kernel, by decide +kernel, h, hh, fannedOut_run t 4 () ops hh⟩

end Exchange

end Arbiter
