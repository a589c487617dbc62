import Arbiter.Proofs.Broker.Docket
import Arbiter.Proofs.Broker.Dossier

/-!
Several heads resolved in a row. They leave with their instances, and each is completed with what
the broker had of it at the start; a session that held some of them settles their tokens in this
order and is lost if a result for it was refused.
-/

namespace Arbiter

/-- A session once the events with these tokens ended; a result for it may have been refused. -/
def Session.relieve (sess : Session) (tokens : List UInt64) (refused : Bool) : Session :=
  { sess with
    pending := tokens.foldl Table.erase sess.pending
    settled := tokens.foldl Settled.insert sess.settled
    lost := sess.lost || refused }

theorem Session.relieve_nil (sess : Session) : sess.relieve [] false = sess := by
  simp [relieve]

theorem Session.relieve_append (sess : Session) (tokens tokens' : List UInt64)
    (refused refused' : Bool) : sess.relieve (tokens ++ tokens') (refused || refused') =
      (sess.relieve tokens refused).relieve tokens' refused' := by
  simp only [relieve, List.foldl_append, Bool.or_assoc]

def Purpose.tells (p : Purpose) (s : SessionId) : Bool :=
  match p with
  | .outcome session _ => session = s
  | _ => false

def refused (s : SessionId) (sends : List Send) : Bool :=
  sends.any fun send => send.purpose.tells s && !send.result.isOk

theorem refused_append (s : SessionId) (sends sends' : List Send) :
    refused s (sends ++ sends') = (refused s sends || refused s sends') :=
  List.any_append

theorem refused_of_concludes {s : SessionId} {id : HeadId} {sends : List Send}
    (h : ∀ send ∈ sends, send.purpose.concludes id = true) :
    refused s sends = (Exchange.resultsFor s id sends).any (!·.result.isOk) := by
  rw [refused, Exchange.resultsFor, List.any_filter, Bool.eq_iff_iff]
  simp only [List.any_eq_true]
  refine exists_congr fun send => and_congr_right fun hs => ?_
  have hconcludes := h send hs
  cases hp : send.purpose with
  | event | reply => simp [hp, Purpose.concludes] at hconcludes
  | outcome s' id' =>
    obtain rfl : id' = id := by simpa [hp, Purpose.concludes] using hconcludes
    simp [Purpose.tells]

namespace Broker

variable {ω : Type} {b b' : Broker ω} {id : HeadId}

/-- What a session is asked under for the head, if it holds an instance of it. -/
def tokenFor? (b : Broker ω) (s : SessionId) (id : HeadId) : Option UInt64 :=
  (b.heads.get? id).bind fun h =>
    if h.instances.any (b.instances.belongs s) then some h.token else none

def completion? (b : Broker ω) (sends : List Send) (id : HeadId) : Option (Completion ω) :=
  (b.heads.get? id).bind fun h => h.waiter.map fun w =>
    ⟨w, id, h.message, h.outcome, h.decider.map Decider.uid, notified id sends⟩

theorem tokenFor?_congr (hheads : b'.heads.get? id = b.heads.get? id)
    (hinstances : ∀ h, b.heads.get? id = some h → ∀ i ∈ h.instances,
      b'.instances.get? i = b.instances.get? i) (s : SessionId) :
    b'.tokenFor? s id = b.tokenFor? s id := by
  rw [tokenFor?, tokenFor?, hheads]
  cases hh : b.heads.get? id with
  | none => rfl
  | some h =>
    have hany : h.instances.any (b'.instances.belongs s) =
        h.instances.any (b.instances.belongs s) := by
      rw [Bool.eq_iff_iff, List.any_eq_true, List.any_eq_true]
      refine exists_congr fun i => and_congr_right fun hi => ?_
      rw [Table.belongs, Table.belongs, hinstances h hh i hi]
    rw [Option.bind_some, Option.bind_some, hany]

theorem completion?_congr {sends sends' : List Send} (hheads : b'.heads.get? id = b.heads.get? id)
    (hsends : notified id sends' = notified id sends) :
    b'.completion? sends' id = b.completion? sends id := by
  rw [completion?, completion?, hheads, hsends]

end Broker

namespace Exchange

variable {ω σ : Type}

/-- From `x` to `y` the heads in the list were resolved in their order, and `new` was sent. -/
structure Resolved (ready : List HeadId) (x y : Exchange ω σ) (new : List Send) : Prop where
  heads (id) : y.broker.heads.get? id = if id ∈ ready then none else x.broker.heads.get? id
  instances (i) : y.broker.instances.get? i =
    (x.broker.instances.get? i).filter fun inst => inst.head ∉ ready
  sessions (s) : y.broker.sessions.get? s = (x.broker.sessions.get? s).map
    (·.relieve (ready.filterMap (x.broker.tokenFor? s)) (refused s new))
  nextId : y.broker.nextId = x.broker.nextId
  settledCapacity : y.broker.settledCapacity = x.broker.settledCapacity
  sends : y.sends = x.sends ++ new
  told {id h} : id ∈ ready → x.broker.heads.get? id = some h →
    List.Forall₂ (Tells x.broker h) (x.broker.instances.rows h.instances)
      (new.filter (·.purpose.concludes id))
  only {send} : send ∈ new → ∃ id ∈ ready, send.purpose.concludes id = true
  resolved : y.resolved = x.resolved ++ ready
  completions : y.completions = x.completions ++ ready.filterMap (x.broker.completion? new)

theorem Resolved.refl (x : Exchange ω σ) : Resolved [] x x [] := by
  constructor
  case instances =>
    intro i
    cases x.broker.instances.get? i <;> simp [Option.filter_some]
  all_goals simp [refused, Session.relieve_nil]

variable {x y z : Exchange ω σ} {id : HeadId} {h : Head ω} {rest : List HeadId}
  {new new' : List Send}

namespace Broadcast

theorem session (hx : Broadcast id h x y new) (hb : x.broker.Coherent)
    (hh : x.broker.heads.get? id = some h) (s : SessionId) : y.broker.sessions.get? s =
      (x.broker.sessions.get? s).map
        (·.relieve (x.broker.tokenFor? s id).toList (refused s new)) := by
  have hrefused : refused s new = (resultsFor s id new).any (!·.result.isOk) :=
    refused_of_concludes fun _ hs => (hx.concludes hb hh hs id).trans (decide_eq_true rfl)
  rw [hx.sessions, hrefused, Broker.tokenFor?, hh, Option.bind_some]
  by_cases hheld : h.instances.any (x.broker.instances.belongs s) = true
  · obtain ⟨i, hmem, hbelongs⟩ := List.any_eq_true.mp hheld
    obtain ⟨inst, hi, -⟩ := (hb.tallies hh).member hmem
    rw [Table.belongs_eq hi, decide_eq_true_eq] at hbelongs
    obtain ⟨send, hone, -⟩ := hx.resultsFor_of_mem hb hh hi hmem
    rw [hbelongs] at hone
    rw [if_pos hheld, hone, List.any_cons, List.any_nil, Bool.or_false]
    rfl
  · -- The session holds no instance of the head, so nothing is sent to it.
    have hnone : resultsFor s id new = [] := by
      refine hx.resultsFor_of_forall hb hh fun i hmem inst hi hsession => hheld ?_
      refine List.any_eq_true.mpr ⟨i, hmem, ?_⟩
      rw [Table.belongs_eq hi, hsession, decide_eq_true rfl]
    rw [if_neg hheld, hnone]
    simp [Session.relieve_nil]

end Broadcast

theorem Tells.of_broadcast {p : InstanceId × Instance} {h' : Head ω} {send : Send}
    (hx : Broadcast id h x y new) (ht : Tells y.broker h' p send) :
    Tells x.broker h' p send where
  purpose := ht.purpose
  channel := by
    obtain ⟨sess', hs', hchannel⟩ := ht.channel
    rw [hx.sessions] at hs'
    obtain ⟨sess, hs, rfl⟩ := Option.map_eq_some_iff.mp hs'
    exact ⟨sess, hs, hchannel.trans (Session.foldl_hear (f := Session.channel) (fun _ _ => rfl) ..)⟩
  message := ht.message

theorem Resolved.cons (hb : x.broker.Coherent) (hh : x.broker.heads.get? id = some h)
    (hx : Broadcast id h x y new) (hnot : id ∉ rest) (hy : Resolved rest y z new') :
    Resolved (id :: rest) x z (new ++ new') := by
  have hne {id'} (hid : id' ∈ rest) : id' ≠ id := fun heq => hnot (heq ▸ hid)
  have hheads {id'} (hid : id' ∈ rest) : y.broker.heads.get? id' = x.broker.heads.get? id' := by
    rw [hx.heads, Table.get?_erase, if_neg (hne hid)]
  have hkept {id'} (hid : id' ∈ rest) (h') (hh' : x.broker.heads.get? id' = some h') (i)
      (hi : i ∈ h'.instances) : y.broker.instances.get? i = x.broker.instances.get? i :=
    hx.instances_of_others hb hh (hne hid) hh' hi
  have hfirst {id'} (hid : id' ∈ rest) {send} (hs : send ∈ new) :
      send.purpose.concludes id' = false :=
    hx.not_concludes hb hh (hne hid).symm hs
  have hlast {send} (hs : send ∈ new') : send.purpose.concludes id = false := by
    obtain ⟨id', hid, hconcludes⟩ := hy.only hs
    refine Bool.eq_false_iff.mpr fun hself => hne hid ?_
    cases hp : send.purpose with
    | event | reply => simp [hp, Purpose.concludes] at hself
    | outcome s id'' =>
      simp only [hp, Purpose.concludes, decide_eq_true_eq] at hself hconcludes
      exact hconcludes.symm.trans hself
  have hown {send} (hs : send ∈ new) : send.purpose.concludes id = true :=
    (hx.concludes hb hh hs id).trans (decide_eq_true rfl)
  exact {
    heads := fun id' => by
      rw [hy.heads, hx.heads, Table.get?_erase]
      by_cases hid : id' = id <;> simp [hid]
    instances := fun i => by
      rw [hy.instances, hx.instances_of_head hb hh, Option.filter_filter]
      refine congrArg (Option.filter · _) (funext fun inst => ?_)
      simp
    sessions := fun s => by
      have htokens : rest.filterMap (y.broker.tokenFor? s) =
          rest.filterMap (x.broker.tokenFor? s) :=
        List.filterMap_congr fun id' hid => Broker.tokenFor?_congr (hheads hid) (hkept hid) s
      have hall : (id :: rest).filterMap (x.broker.tokenFor? s) =
          (x.broker.tokenFor? s id).toList ++ rest.filterMap (x.broker.tokenFor? s) := by
        rw [List.filterMap_cons]
        cases x.broker.tokenFor? s id <;> rfl
      rw [hy.sessions, hx.session hb hh, Option.map_map, htokens, hall, refused_append]
      exact congrArg (Option.map · _) (funext fun sess => (Session.relieve_append ..).symm)
    nextId := hy.nextId.trans hx.nextId
    settledCapacity := hy.settledCapacity.trans hx.settledCapacity
    sends := by rw [hy.sends, hx.sends, List.append_assoc]
    told := fun {id' h'} hid hh' => by
      rw [List.filter_append]
      rcases List.mem_cons.mp hid with rfl | hid
      · obtain rfl : h = h' := Option.some.inj (hh.symm.trans hh')
        rw [List.filter_eq_self.mpr fun _ hs => hown hs,
          List.filter_eq_nil_iff.mpr fun _ hs => by simp [hlast hs], List.append_nil]
        exact hx.told
      · rw [List.filter_eq_nil_iff.mpr fun _ hs => by simp [hfirst hid hs], List.nil_append,
          ← Table.rows_congr (hkept hid h' hh')]
        exact (hy.told hid ((hheads hid).trans hh')).imp fun _ _ => Tells.of_broadcast hx
    only := fun {send} hs => by
      rcases List.mem_append.mp hs with hs | hs
      · exact ⟨id, List.mem_cons_self .., hown hs⟩
      · obtain ⟨id', hid, hconcludes⟩ := hy.only hs
        exact ⟨id', List.mem_cons_of_mem _ hid, hconcludes⟩
    resolved := by rw [hy.resolved, hx.resolved, List.append_assoc, List.singleton_append]
    completions := by
      have hself : notified id (new ++ new') = new.countP (·.result.isOk) := by
        rw [notified_append, notified_of_concludes fun _ hs => hown hs,
          notified_eq_zero fun _ hs => hlast hs, Nat.add_zero]
      have hothers : rest.filterMap (y.broker.completion? new') =
          rest.filterMap (x.broker.completion? (new ++ new')) := by
        refine List.filterMap_congr fun id' hid => Broker.completion?_congr (hheads hid) ?_
        rw [notified_append, notified_eq_zero fun _ hs => hfirst hid hs, Nat.zero_add]
      rw [hy.completions, hx.completions, hothers, List.append_assoc, List.filterMap_cons,
        Broker.completion?, hh, Option.bind_some, hself]
      cases h.waiter <;> rfl }

theorem resolveAll_spec (t : Transport σ) {ready : List HeadId} (hb : x.broker.Coherent)
    (hr : Ready x.broker ready) : ∃ new, Resolved ready x (x.resolveAll t ready) new := by
  induction ready generalizing x with
  | nil => exact ⟨[], .refl x⟩
  | cons id rest ih =>
    obtain ⟨h, hh⟩ := hr.present (List.mem_cons_self ..)
    obtain ⟨new, -, hx⟩ := broadcast_spec t hb hh
    obtain ⟨new', hrest⟩ := ih (hx.coherent hb hh) (hr.tail hx)
    exact ⟨new ++ new', .cons hb hh hx (List.nodup_cons.mp hr.nodup).1 hrest⟩

end Exchange

end Arbiter
