import Arbiter.Proofs.Broker.Carriage
import Arbiter.Proofs.Broker.Lifecycle
import Arbiter.Proofs.Broker.Solo

/-!
One event among others. What the broker holds, sends and reports of a head is seen as a broker with
that event alone; an operation on other heads does not touch it, and the resolution of heads touches
it only if the head is one of them.
-/

namespace Arbiter

section Keys

variable {κ α : Type} [DecidableEq κ] (t : Table κ α) (k : κ)

theorem Table.keys_modify (f : α → α) : (t.modify k f).keys = t.keys := by
  simp only [keys, modify, List.map_map]
  refine List.map_congr_left fun e _ => ?_
  simp only [Function.comp_apply]
  split <;> rfl

theorem Table.filterMap_keys {β : Type} (f : κ → α → β) :
    t.keys.filterMap (fun k => (t.get? k).map (f k)) = t.entries.map fun e => f e.1 e.2 := by
  rw [keys, List.filterMap_map, ← List.filterMap_eq_map]
  refine List.filterMap_congr fun e he => ?_
  rw [Function.comp_apply, Table.get?_eq_some.mpr he]
  rfl

end Keys

def Session.member (s : SessionId) (sess : Session) : Member :=
  ⟨s, sess.uid, sess.channel, sess.registrations⟩

@[simp] theorem Session.interested_member (s : SessionId) (sess : Session) (key : Filter) :
    (sess.member s).interested key = sess.interested key := rfl

@[simp] theorem Session.uid_member (s : SessionId) (sess : Session) :
    (sess.member s).uid = sess.uid := rfl

namespace Broker

variable {ω : Type} {b b' : Broker ω}

def members (b : Broker ω) : List Member := b.sessions.entries.map fun e => e.2.member e.1

theorem find?_members (b : Broker ω) (s : SessionId) :
    b.members.find? (·.session = s) = (b.sessions.get? s).map (Session.member s) := by
  have hkey : ((·.session = s : Member → Bool) ∘ fun e => e.2.member e.1) =
      fun e : SessionId × Session => decide (e.1 = s) := rfl
  rw [members, List.find?_map, hkey, Table.get?, Option.map_map]
  refine Option.map_congr fun e he => ?_
  obtain rfl : e.1 = s := by simpa using List.find?_some he
  rfl

@[simp] theorem keys_modifySession (b : Broker ω) (s : SessionId) (f : Session → Session) :
    (b.modifySession s f).sessions.keys = b.sessions.keys :=
  Table.keys_modify ..

@[simp] theorem keys_markLost (b : Broker ω) (s : SessionId) :
    (b.markLost s).sessions.keys = b.sessions.keys :=
  keys_modifySession ..

theorem map_session_members (b : Broker ω) : b.members.map Member.session = b.sessions.keys :=
  List.map_map

theorem members_congr (horder : b'.sessions.keys = b.sessions.keys)
    (hprofile : ∀ s, (b'.sessions.get? s).map Session.profile =
      (b.sessions.get? s).map Session.profile) : b'.members = b.members := by
  have hmember (s : SessionId) : (b'.sessions.get? s).map (Session.member s) =
      (b.sessions.get? s).map (Session.member s) := by
    have h := congrArg (Option.map fun p => (⟨s, p.1, p.2.1, p.2.2⟩ : Member)) (hprofile s)
    rwa [Option.map_map, Option.map_map] at h
  rw [members, members, ← Table.filterMap_keys, ← Table.filterMap_keys, horder]
  exact List.filterMap_congr fun s _ => hmember s

theorem members_modify (b : Broker ω) (s : SessionId) {f : Session → Session}
    {g : Member → Member} (hf : ∀ sess, (f sess).member s = g (sess.member s)) :
    (b.modifySession s f).members = b.members.map fun m => if m.session = s then g m else m := by
  simp only [members, modifySession, Table.modify, List.map_map]
  refine List.map_congr_left fun e _ => ?_
  simp only [Function.comp_apply, Session.member]
  split
  · rename_i hs
    subst hs
    exact hf e.2
  · rfl

end Broker

def Purpose.head? : Purpose → Option HeadId
  | .event _ id => some id
  | .outcome _ id => some id
  | .reply => none

namespace Exchange

variable {ω σ : Type} {t : Transport σ} {x y z : Exchange ω σ} {id id' : HeadId}

def traffic (x : Exchange ω σ) (id : HeadId) : List (ChannelId × Message) :=
  (x.sends.filter (·.purpose.head? = some id)).map fun send => (send.channel, send.message)

def solo (x : Exchange ω σ) (id : HeadId) : Solo ω :=
  ⟨x.broker.members, x.broker.dossier? id, id ∈ x.resolved, x.traffic id, x.told id⟩

theorem dossier_solo {h : Head ω} (hh : x.broker.heads.get? id = some h) :
    (x.solo id).dossier = some (h.dossier x.broker.instances) := by
  rw [solo, Broker.dossier?, hh, Option.map_some]

theorem dossier_solo_of_absent (hh : x.broker.heads.get? id = none) :
    (x.solo id).dossier = none := by
  rw [solo, Broker.dossier?, hh, Option.map_none]

theorem member?_solo (x : Exchange ω σ) (id : HeadId) (s : SessionId) :
    (x.solo id).member? s = (x.broker.sessions.get? s).map (Session.member s) :=
  x.broker.find?_members s

theorem channel?_solo (x : Exchange ω σ) (id : HeadId) :
    (x.solo id).channel? = fun s => (x.broker.sessions.get? s).map Session.channel := by
  funext s
  rw [Solo.channel?, member?_solo, Option.map_map]
  rfl

theorem traffic_of_sends {new : List Send} (h : y.sends = x.sends ++ new) (id : HeadId) :
    y.traffic id = x.traffic id ++
      (new.filter (·.purpose.head? = some id)).map fun send => (send.channel, send.message) := by
  rw [traffic, traffic, h, List.filter_append, List.map_append]

theorem traffic_of_others {new : List Send} (h : y.sends = x.sends ++ new)
    (hnew : ∀ send ∈ new, send.purpose.head? ≠ some id) : y.traffic id = x.traffic id := by
  have hnone : new.filter (·.purpose.head? = some id) = [] :=
    List.filter_eq_nil_iff.mpr fun send hsend => by simpa using hnew send hsend
  rw [traffic_of_sends h, hnone]
  exact List.append_nil _

theorem traffic_of_own {new : List Send} (h : y.sends = x.sends ++ new)
    (hnew : ∀ send ∈ new, send.purpose.head? = some id) :
    y.traffic id = x.traffic id ++ new.map fun send => (send.channel, send.message) := by
  have hall : new.filter (·.purpose.head? = some id) = new :=
    List.filter_eq_self.mpr fun send hsend => by simpa using hnew send hsend
  rw [traffic_of_sends h, hall]

theorem solo_withBroker_eq (x : Exchange ω σ) (b : Broker ω) (id : HeadId) :
    (x.withBroker b).solo id =
      { x.solo id with members := b.members, dossier := b.dossier? id } := rfl

theorem solo_withBroker {b : Broker ω} (hmembers : b.members = x.broker.members)
    (hdossier : b.dossier? id = x.broker.dossier? id) : (x.withBroker b).solo id = x.solo id := by
  rw [solo_withBroker_eq, hmembers, hdossier]
  rfl

theorem dossier?_addInstance_of_ne {b : Broker ω} (hb : b.Coherent) (s : SessionId)
    (token : UInt64) (hne : id' ≠ id) : (b.addInstance s id' token).dossier? id = b.dossier? id := by
  refine Broker.dossier?_congr ?_ fun h hh i hi => ?_
  · exact (Table.get?_modify ..).trans (if_neg hne.symm)
  · obtain ⟨inst, hget, -⟩ := (hb.tallies hh).member hi
    refine (Table.get?_insert ..).trans (if_neg ?_)
    rintro rfl
    rw [hb.instance_fresh (Nat.le_refl _)] at hget
    cases hget

theorem members_addInstance (b : Broker ω) (s : SessionId) (id : HeadId) (token : UInt64) :
    (b.addInstance s id token).members = b.members :=
  Broker.members_congr (Broker.keys_modifySession ..) fun _ => Table.map_get?_modify _ _ _ fun _ => rfl

theorem Offer.solo_of_ne (ho : Offer t id' x y) (hb : x.broker.Coherent) (hne : id' ≠ id) :
    y.solo id = x.solo id := by
  cases ho with
  | @sent s sess h =>
    have htraffic : (x.send t (.event s id') sess.channel h.message).2.traffic id = x.traffic id :=
      traffic_of_others (send_sends ..) fun send hsend => by
        rw [List.mem_singleton.mp hsend]
        simpa [Purpose.head?] using hne
    rw [solo, htraffic]
    rfl
  | queued =>
    exact solo_withBroker (members_addInstance ..) (dossier?_addInstance_of_ne hb _ _ hne)
  | lost s =>
    exact solo_withBroker (Broker.members_congr (Broker.keys_markLost ..) fun _ =>
      Table.map_get?_modify _ _ _ fun _ => rfl) rfl

theorem offers_solo_of_ne (h : Relation.ReflTransGen (Offer t id') x y) (hb : x.broker.Coherent)
    (hne : id' ≠ id) : y.solo id = x.solo id := by
  induction h with
  | refl => rfl
  | tail hxy hoffer ih => exact (hoffer.solo_of_ne (offers_coherent hxy hb) hne).trans ih

theorem conclude_order (t : Transport σ) (h : Head ω) (progress : Nat × Exchange ω σ)
    (i : InstanceId) :
    (conclude t h progress i).2.broker.sessions.keys = progress.2.broker.sessions.keys := by
  obtain ⟨n, x⟩ := progress
  simp only [conclude]
  split
  · rfl
  · split
    · rfl
    · rename_i inst _ _ sess _
      simp only [withBroker, Broker.keys_modifySession]
      split
      · rfl
      · rename_i m hm
        have hsend := send_broker t (x.withBroker
          { x.broker with instances := x.broker.instances.erase i })
          (.outcome inst.session inst.head) sess.channel m
        rw [withBroker] at hsend
        split <;> rename_i heq <;> rw [heq] at hsend
        · exact congrArg (fun b => b.sessions.keys) hsend
        · rw [Broker.keys_markLost, hsend]

theorem broadcast_order (t : Transport σ) (x : Exchange ω σ) (id : HeadId) :
    (x.broadcast t id).2.broker.sessions.keys = x.broker.sessions.keys := by
  have hfold (h : Head ω) (is : List InstanceId) (progress : Nat × Exchange ω σ) :
      (is.foldl (conclude t h) progress).2.broker.sessions.keys =
        progress.2.broker.sessions.keys := by
    induction is generalizing progress with
    | nil => rfl
    | cons i is ih => exact (ih _).trans (conclude_order t h progress i)
  unfold broadcast
  split
  · rfl
  · simp only [complete_eq]
    exact hfold ..

theorem Broadcast.own {h : Head ω} {new : List Send} (hx : Broadcast id h x y new)
    (hb : x.broker.Coherent) (hh : x.broker.heads.get? id = some h) {send : Send}
    (hs : send ∈ new) : send.purpose.head? = some id := by
  obtain ⟨p, howed, htells⟩ := hx.owed hb hh hs
  rw [htells.purpose, Purpose.head?, howed.head]

theorem broadcast_accepted (ht : t.Accepts) (hb : x.broker.Coherent) {h : Head ω}
    (hh : x.broker.heads.get? id = some h) :
    ∃ new, Broadcast id h x (x.broadcast t id).2 new ∧ ∀ send ∈ new, send.result = .ok () := by
  obtain ⟨new, -, hx⟩ := broadcast_spec t hb hh
  obtain ⟨new', hsends, hok⟩ := (broadcast_emits t x id).accepted ht
  obtain rfl : new = new' := List.append_cancel_left (hx.sends.symm.trans hsends)
  exact ⟨new, hx, hok⟩

theorem Broadcast.dossier?_of_ne {h : Head ω} {new : List Send} (hx : Broadcast id' h x y new)
    (hb : x.broker.Coherent) (hh : x.broker.heads.get? id' = some h) (hne : id' ≠ id) :
    y.broker.dossier? id = x.broker.dossier? id := by
  refine Broker.dossier?_congr ?_ fun h' hh' i hi => ?_
  · rw [hx.heads, Table.get?_erase, if_neg (Ne.symm hne)]
  · exact hx.instances_of_others hb hh (Ne.symm hne) hh' hi

theorem Broadcast.solo_of_ne {h : Head ω} {new : List Send} (hx : Broadcast id' h x y new)
    (hb : x.broker.Coherent) (hh : x.broker.heads.get? id' = some h)
    (hmembers : y.broker.members = x.broker.members) (hne : id' ≠ id) : y.solo id = x.solo id := by
  have htraffic : y.traffic id = x.traffic id := by
    refine traffic_of_others hx.sends fun send hs => ?_
    rw [hx.own hb hh hs]
    simpa using hne
  have hresolved : id ∈ y.resolved ↔ id ∈ x.resolved := by
    simp [hx.resolved, Ne.symm hne]
  rw [solo, solo, hmembers, hx.dossier?_of_ne hb hh hne, htraffic, hx.told_of_ne hne,
    decide_eq_decide.mpr hresolved]

theorem Broadcast.solo {h : Head ω} {new : List Send} (hx : Broadcast id h x y new)
    (hb : x.broker.Coherent) (hh : x.broker.heads.get? id = some h)
    (hmembers : y.broker.members = x.broker.members) (hok : ∀ send ∈ new, send.result = .ok ()) :
    y.solo id = ((x.solo id).resolve id).2 := by
  have hgone : y.broker.dossier? id = none := by
    rw [Broker.dossier?, hx.heads, Table.get?_erase, if_pos rfl]
    rfl
  have htraffic := traffic_of_own hx.sends fun _ hs => hx.own hb hh hs
  rw [hx.results hb hh, ← channel?_solo x id] at htraffic
  have htold : y.told id = x.told id ++ (h.dossier x.broker.instances).completion id := by
    rw [Exchange.told, Exchange.told, hx.completion hok, List.filter_append, List.append_cancel_left_eq]
    refine List.filter_eq_self.mpr fun c hc => ?_
    obtain ⟨w, -, rfl⟩ := List.mem_map.mp hc
    exact decide_eq_true rfl
  have hresolved : id ∈ y.resolved := by
    rw [hx.resolved]
    exact List.mem_append_right _ (List.mem_singleton_self id)
  rw [Solo.resolve, dossier_solo hh, Exchange.solo, hmembers, hgone, htraffic, htold,
    decide_eq_true hresolved]
  rfl

theorem solo_broadcast (ht : t.Accepts) (hb : x.broker.Coherent) {h : Head ω}
    (hh : x.broker.heads.get? id' = some h) (id : HeadId) :
    (x.broadcast t id').2.solo id =
      if id' = id then ((x.solo id).resolve id).2 else x.solo id := by
  have horder := broadcast_order t x id'
  obtain ⟨new, hx, hok⟩ := broadcast_accepted ht hb hh
  generalize (x.broadcast t id').2 = y at horder hx
  have hmembers := Broker.members_congr horder hx.profile
  split
  · subst id'
    exact hx.solo hb hh hmembers hok
  · exact hx.solo_of_ne hb hh hmembers ‹_›

theorem solo_resolveAll (ht : t.Accepts) {ready : List HeadId} (hb : x.broker.Coherent)
    (hr : Ready x.broker ready) (id : HeadId) :
    (x.resolveAll t ready).solo id =
      if id ∈ ready then ((x.solo id).resolve id).2 else x.solo id := by
  induction ready generalizing x with
  | nil => rfl
  | cons id' rest ih =>
    obtain ⟨h, hh⟩ := hr.present (List.mem_cons_self ..)
    obtain ⟨new, -, hspec⟩ := broadcast_spec t hb hh
    have htail := ih (hspec.coherent hb hh) (hr.tail hspec)
    rw [solo_broadcast ht hb hh] at htail
    refine htail.trans ?_
    by_cases hid : id' = id
    · subst id'
      rw [if_neg (List.nodup_cons.mp hr.nodup).1, if_pos rfl, if_pos (List.mem_cons_self ..)]
    · simp only [if_neg hid, List.mem_cons, Ne.symm hid, false_or]

end Exchange

end Arbiter
