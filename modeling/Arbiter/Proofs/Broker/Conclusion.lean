import Mathlib.Data.List.Forall2
import Mathlib.Data.List.Nodup
import Arbiter.Proofs.Broker.Coherence
import Arbiter.Proofs.Message.Composition

/-!
What a broadcast does. The head leaves, each of its instances leaves with it, and the session of
each is handed one result and remembers the token as settled. A refused result loses its session
and nothing else; the tables stay coherent.
-/

namespace Arbiter

def Table.rows {κ α : Type} [DecidableEq κ] (t : Table κ α) (ks : List κ) : List (κ × α) :=
  ks.filterMap fun k => (t.get? k).map fun a => (k, a)

theorem Table.mem_rows {κ α : Type} [DecidableEq κ] {t : Table κ α} {ks : List κ} {k : κ} {a : α} :
    (k, a) ∈ t.rows ks ↔ k ∈ ks ∧ t.get? k = some a := by
  simp only [rows, List.mem_filterMap, Option.map_eq_some_iff, Prod.mk.injEq]
  constructor
  · rintro ⟨k', hk', a', ha', rfl, rfl⟩
    exact ⟨hk', ha'⟩
  · rintro ⟨hk, ha⟩
    exact ⟨k, hk, a, ha, rfl, rfl⟩

theorem Table.map_fst_rows {κ α : Type} [DecidableEq κ] {t : Table κ α} {ks : List κ}
    (h : ∀ k ∈ ks, ∃ a, t.get? k = some a) : (t.rows ks).map Prod.fst = ks := by
  induction ks with
  | nil => rfl
  | cons k ks ih =>
    obtain ⟨a, ha⟩ := h k (List.mem_cons_self ..)
    have ih := ih fun k' hk' => h k' (List.mem_cons_of_mem _ hk')
    simp only [rows, List.filterMap_cons, ha, Option.map_some, List.map_cons]
    exact congrArg (k :: ·) ih

def Session.hear (token : UInt64) (s : Session) (send : Send) : Session :=
  { s.settle token with lost := s.lost || !send.result.isOk }

theorem Session.hear_ok (token : UInt64) (purpose : Purpose) (channel : ChannelId) (m : Message)
    (u : Unit) : (Session.hear token · ⟨purpose, channel, m, .ok u⟩) = (·.settle token) := by
  funext s
  simp [hear, settle, Except.isOk, Except.toBool]

theorem Session.hear_error (token : UInt64) (purpose : Purpose) (channel : ChannelId) (m : Message)
    (e : SendRefusal) : (Session.hear token · ⟨purpose, channel, m, .error e⟩) =
      (·.settle token) ∘ fun s => { s with lost := true } := by
  funext s
  simp [hear, settle, Except.isOk, Except.toBool]

theorem Session.foldl_hear {β : Type} {f : Session → β} {token : UInt64}
    (hf : ∀ s send, f (Session.hear token s send) = f s) (s : Session) (sends : List Send) :
    f (sends.foldl (Session.hear token) s) = f s := by
  induction sends generalizing s with
  | nil => rfl
  | cons send sends ih => rw [List.foldl_cons, ih, hf]

theorem Session.foldl_hear_pending (token k : UInt64) (s : Session) (sends : List Send) :
    (sends.foldl (Session.hear token) s).pending.get? k =
      if k = token ∧ sends ≠ [] then none else s.pending.get? k := by
  induction sends generalizing s with
  | nil => simp
  | cons send sends ih =>
    rw [List.foldl_cons, ih]
    by_cases hk : k = token <;> simp [Session.hear, Session.settle, Table.get?_erase, hk]

namespace Exchange

variable {ω σ : Type}

def resultsFor (session : SessionId) (head : HeadId) (sends : List Send) : List Send :=
  sends.filter (·.purpose = .outcome session head)

theorem resultsFor_append (session : SessionId) (head : HeadId) (sends sends' : List Send) :
    resultsFor session head (sends ++ sends') =
      resultsFor session head sends ++ resultsFor session head sends' :=
  List.filter_append ..

/-- The result that an instance of a head is owed. -/
structure Tells (b : Broker ω) (h : Head ω) (p : InstanceId × Instance) (send : Send) : Prop where
  purpose : send.purpose = .outcome p.2.session p.2.head
  channel : ∃ s, b.sessions.get? p.2.session = some s ∧ send.channel = s.channel
  message : Message.outcome p.2.token (h.decidedBy p.1) h.deciderUid h.outcome = .ok send.message

structure Concluded (id : HeadId) (h : Head ω) (ps : List (InstanceId × Instance))
    (x x' : Exchange ω σ) (new : List Send) : Prop where
  heads : x'.broker.heads = x.broker.heads
  nextId : x'.broker.nextId = x.broker.nextId
  settledCapacity : x'.broker.settledCapacity = x.broker.settledCapacity
  instances (i) : x'.broker.instances.get? i =
    if i ∈ ps.map Prod.fst then none else x.broker.instances.get? i
  sessions (s) : x'.broker.sessions.get? s = (x.broker.sessions.get? s).map fun sess =>
    (resultsFor s id new).foldl (Session.hear h.token) sess
  sends : x'.sends = x.sends ++ new
  told : List.Forall₂ (Tells x.broker h) ps new
  resolved : x'.resolved = x.resolved
  completions : x'.completions = x.completions

theorem Concluded.refl (id : HeadId) (h : Head ω) (x : Exchange ω σ) :
    Concluded id h [] x x [] := by
  constructor <;> simp [resultsFor]

theorem Concluded.channel {id : HeadId} {h : Head ω} {ps : List (InstanceId × Instance)}
    {x x' : Exchange ω σ} {new : List Send} (hc : Concluded id h ps x x' new) {s : SessionId}
    {sess' : Session} (hs : x'.broker.sessions.get? s = some sess') :
    ∃ sess, x.broker.sessions.get? s = some sess ∧ sess'.channel = sess.channel := by
  rw [hc.sessions] at hs
  obtain ⟨sess, hsess, rfl⟩ := Option.map_eq_some_iff.mp hs
  exact ⟨sess, hsess, Session.foldl_hear (f := Session.channel) (fun _ _ => rfl) _ _⟩

theorem Concluded.trans {id : HeadId} {h : Head ω} {ps qs : List (InstanceId × Instance)}
    {x y z : Exchange ω σ} {new new' : List Send} (hxy : Concluded id h ps x y new)
    (hyz : Concluded id h qs y z new') : Concluded id h (ps ++ qs) x z (new ++ new') where
  heads := hyz.heads.trans hxy.heads
  nextId := hyz.nextId.trans hxy.nextId
  settledCapacity := hyz.settledCapacity.trans hxy.settledCapacity
  instances i := by
    rw [hyz.instances, hxy.instances, List.map_append]
    by_cases hp : i ∈ ps.map Prod.fst <;> by_cases hq : i ∈ qs.map Prod.fst <;>
      simp only [List.mem_append, hp, hq, or_self, or_true, true_or, ↓reduceIte]
  sessions s := by
    rw [hyz.sessions, hxy.sessions, Option.map_map, resultsFor_append]
    simp only [Function.comp_def, List.foldl_append]
  sends := by rw [hyz.sends, hxy.sends, List.append_assoc]
  told := List.rel_append hxy.told <| hyz.told.imp fun p send hp => by
    obtain ⟨sess', hs', hchannel'⟩ := hp.channel
    obtain ⟨sess, hs, hchannel⟩ := hxy.channel hs'
    exact ⟨hp.purpose, ⟨sess, hs, hchannel'.trans hchannel⟩, hp.message⟩
  resolved := hyz.resolved.trans hxy.resolved
  completions := hyz.completions.trans hxy.completions

structure Owed (b : Broker ω) (id : HeadId) (h : Head ω) (p : InstanceId × Instance) : Prop where
  present : b.instances.get? p.1 = some p.2
  head : p.2.head = id
  token : p.2.token = h.token
  attended : ∃ s, b.sessions.get? p.2.session = some s

theorem Concluded.single {id : HeadId} {h : Head ω} {x x' : Exchange ω σ}
    {p : InstanceId × Instance} {send : Send} (hp : Owed x.broker id h p)
    (htells : Tells x.broker h p send)
    (hbroker : x'.broker =
      { x.broker with instances := x.broker.instances.erase p.1, sessions := x'.broker.sessions })
    (hsessions : ∀ s, x'.broker.sessions.get? s = if s = p.2.session then
      (x.broker.sessions.get? s).map (Session.hear h.token · send) else x.broker.sessions.get? s)
    (hsends : x'.sends = x.sends ++ [send]) (hresolved : x'.resolved = x.resolved)
    (hcompletions : x'.completions = x.completions) : Concluded id h [p] x x' [send] where
  heads := by rw [hbroker]
  nextId := by rw [hbroker]
  settledCapacity := by rw [hbroker]
  instances i := by
    rw [congrArg Broker.instances hbroker, Table.get?_erase]
    simp
  sessions s := by
    have hfilter : resultsFor s id [send] = if s = p.2.session then [send] else [] := by
      simp [resultsFor, List.filter_singleton, htells.purpose, hp.head, eq_comm]
    rw [hsessions, hfilter]
    split <;> simp
  sends := hsends
  told := .cons htells .nil
  resolved := hresolved
  completions := hcompletions

theorem conclude_spec (t : Transport σ) {id : HeadId} {h : Head ω} {x : Exchange ω σ}
    {p : InstanceId × Instance} (hp : Owed x.broker id h p) (n : Nat) :
    ∃ send, Concluded id h [p] x (conclude t h (n, x) p.1).2 [send] ∧
      (conclude t h (n, x) p.1).1 = n + [send].countP (·.result.isOk) := by
  obtain ⟨i, inst⟩ := p
  obtain ⟨sess, hs⟩ := hp.attended
  obtain ⟨m, hm⟩ := Message.exists_outcome inst.token (h.decidedBy i) h.deciderUid h.outcome
  have hi : x.broker.instances.get? i = some inst := hp.present
  have htoken : inst.token = h.token := hp.token
  have htells (result) : Tells x.broker h (i, inst)
      ⟨.outcome inst.session inst.head, sess.channel, m, result⟩ := ⟨rfl, ⟨sess, hs, rfl⟩, hm⟩
  cases hresult : (t.send x.transport sess.channel m).1 with
  | ok u =>
    refine ⟨_, .single hp (htells (.ok u)) ?_ (fun s => ?_) ?_ ?_ ?_, ?_⟩
    all_goals simp only [conclude, hi, withBroker, hs, hm, send, hresult]
    · rfl
    · simp only [Broker.modifySession, Table.get?_modify, ← htoken, Session.hear_ok]
    · rfl
  | error e =>
    refine ⟨_, .single hp (htells (.error e)) ?_ (fun s => ?_) ?_ ?_ ?_, ?_⟩
    all_goals simp only [conclude, hi, withBroker, hs, hm, send, hresult]
    · rfl
    · simp only [Broker.modifySession, Broker.markLost, Table.get?_modify, ← htoken,
        Session.hear_error, ← Option.map_map]
      split <;> rfl
    · rfl

theorem Owed.of_concluded {id : HeadId} {h : Head ω} {ps : List (InstanceId × Instance)}
    {x x' : Exchange ω σ} {new : List Send} (hc : Concluded id h ps x x' new)
    {p : InstanceId × Instance} (hp : Owed x.broker id h p) (hnot : p.1 ∉ ps.map Prod.fst) :
    Owed x'.broker id h p := by
  obtain ⟨s, hs⟩ := hp.attended
  exact ⟨by rw [hc.instances, if_neg hnot, hp.present], hp.head, hp.token,
    _, by rw [hc.sessions, hs, Option.map_some]⟩

theorem foldl_conclude (t : Transport σ) {id : HeadId} {h : Head ω} {x : Exchange ω σ}
    {ps : List (InstanceId × Instance)} (hps : ∀ p ∈ ps, Owed x.broker id h p)
    (hnodup : (ps.map Prod.fst).Nodup) (n : Nat) :
    ∃ new, Concluded id h ps x ((ps.map Prod.fst).foldl (conclude t h) (n, x)).2 new ∧
      ((ps.map Prod.fst).foldl (conclude t h) (n, x)).1 = n + new.countP (·.result.isOk) := by
  induction ps generalizing x n with
  | nil => exact ⟨[], .refl id h x, rfl⟩
  | cons p ps ih =>
    obtain ⟨send, hfirst, hcount⟩ := conclude_spec t (hps p (List.mem_cons_self ..)) n
    rw [List.map_cons, List.nodup_cons] at hnodup
    -- Telling one instance leaves the others as the broadcast found them.
    have hrest (q) (hq : q ∈ ps) : Owed (conclude t h (n, x) p.1).2.broker id h q := by
      refine (hps q (List.mem_cons_of_mem _ hq)).of_concluded hfirst ?_
      simp only [List.map_cons, List.map_nil, List.mem_singleton]
      exact fun heq => hnodup.1 (heq ▸ List.mem_map_of_mem hq)
    obtain ⟨new, htail, hcounts⟩ := ih hrest hnodup.2 (conclude t h (n, x) p.1).1
    refine ⟨send :: new, hfirst.trans htail, ?_⟩
    rw [List.map_cons, List.foldl_cons, hcounts, hcount, Nat.add_assoc, ← List.countP_append]
    rfl

/-- A broadcast that took place: the head is gone, with its instances, and those who waited for it
were told. -/
structure Broadcast (id : HeadId) (h : Head ω) (x x' : Exchange ω σ) (new : List Send) : Prop where
  heads : x'.broker.heads = x.broker.heads.erase id
  nextId : x'.broker.nextId = x.broker.nextId
  settledCapacity : x'.broker.settledCapacity = x.broker.settledCapacity
  instances (i) : x'.broker.instances.get? i =
    if i ∈ h.instances then none else x.broker.instances.get? i
  sessions (s) : x'.broker.sessions.get? s = (x.broker.sessions.get? s).map fun sess =>
    (resultsFor s id new).foldl (Session.hear h.token) sess
  sends : x'.sends = x.sends ++ new
  told : List.Forall₂ (Tells x.broker h) (x.broker.instances.rows h.instances) new
  resolved : x'.resolved = x.resolved ++ [id]
  completions : x'.completions = x.completions ++ h.waiter.toList.map fun w =>
    ⟨w, id, h.message, h.outcome, h.decider.map Decider.uid, new.countP (·.result.isOk)⟩

theorem complete_eq (x : Exchange ω σ) (id : HeadId) (h : Head ω) (n : Nat) :
    x.complete id h n = { x with completions := x.completions ++ h.waiter.toList.map fun w =>
      ⟨w, id, h.message, h.outcome, h.decider.map Decider.uid, n⟩ } := by
  unfold complete
  cases h.waiter with
  | none => simp
  | some w => rfl

theorem map_fst_rows {b : Broker ω} (hb : b.Coherent) {id : HeadId} {h : Head ω}
    (hh : b.heads.get? id = some h) : (b.instances.rows h.instances).map Prod.fst = h.instances :=
  Table.map_fst_rows fun i hi => by
    obtain ⟨inst, hi, -⟩ := (hb.tallies hh).member hi
    exact ⟨inst, hi⟩

theorem Owed.of_row {b : Broker ω} (hb : b.Coherent) {id : HeadId} {h : Head ω}
    (hh : b.heads.get? id = some h) {p : InstanceId × Instance}
    (hp : p ∈ b.instances.rows h.instances) : Owed b id h p := by
  obtain ⟨i, inst⟩ := p
  obtain ⟨hmem, hi⟩ := Table.mem_rows.mp hp
  obtain ⟨inst', hi', hhead⟩ := (hb.tallies hh).member hmem
  obtain rfl : inst = inst' := Option.some.inj (hi.symm.trans hi')
  obtain ⟨h', hh', htoken, -⟩ := hb.listed hi
  obtain rfl : h = h' := Option.some.inj (hh.symm.trans (hhead ▸ hh'))
  obtain ⟨s, hs, -⟩ := Option.bind_eq_some_iff.mp (hb.awaited?_of_instance hi)
  exact ⟨hi, hhead, htoken.symm, s, hs⟩

theorem broadcast_spec (t : Transport σ) {x : Exchange ω σ} (hb : x.broker.Coherent) {id : HeadId}
    {h : Head ω} (hh : x.broker.heads.get? id = some h) :
    ∃ new, (x.broadcast t id).1 = true ∧ Broadcast id h x (x.broadcast t id).2 new := by
  have hrows := map_fst_rows hb hh
  have hnodup : ((x.broker.instances.rows h.instances).map Prod.fst).Nodup := by
    rw [hrows]
    exact (hb.tallies hh).nodup
  let erased : Exchange ω σ := { x with
    broker := { x.broker with heads := x.broker.heads.erase id }, resolved := x.resolved ++ [id] }
  have howed (p) (hp : p ∈ x.broker.instances.rows h.instances) : Owed erased.broker id h p :=
    have hp := Owed.of_row hb hh hp
    ⟨hp.present, hp.head, hp.token, hp.attended⟩
  obtain ⟨new, hc, hcount⟩ := foldl_conclude t howed hnodup 0
  have hinstances := hc.instances
  rw [hrows] at hc hcount hinstances
  rw [Nat.zero_add] at hcount
  refine ⟨new, by simp only [broadcast, hh], ?_⟩
  simp only [broadcast, hh, complete_eq]
  exact {
    heads := hc.heads
    nextId := hc.nextId
    settledCapacity := hc.settledCapacity
    instances := hinstances
    sessions := hc.sessions
    sends := hc.sends
    told := hc.told.imp fun p send hp => ⟨hp.purpose, hp.channel, hp.message⟩
    resolved := hc.resolved
    completions := by rw [← hcount]; exact congrArg (· ++ _) hc.completions }

theorem broadcast_absent (t : Transport σ) {x : Exchange ω σ} {id : HeadId}
    (hh : x.broker.heads.get? id = none) : x.broadcast t id = (false, x) := by
  simp only [broadcast, hh]

theorem exists_left_of_mem_right {α β : Type} {R : α → β → Prop} {as : List α} {bs : List β}
    (h : List.Forall₂ R as bs) {b : β} (hb : b ∈ bs) : ∃ a ∈ as, R a b := by
  induction h with
  | nil => cases hb
  | cons hr _ ih =>
    rcases List.mem_cons.mp hb with rfl | hb
    · exact ⟨_, List.mem_cons_self .., hr⟩
    · obtain ⟨a, ha, hr⟩ := ih hb
      exact ⟨a, List.mem_cons_of_mem _ ha, hr⟩

namespace Broadcast

variable {id : HeadId} {h : Head ω} {x x' : Exchange ω σ} {new : List Send}

theorem owed (hx : Broadcast id h x x' new) (hb : x.broker.Coherent)
    (hh : x.broker.heads.get? id = some h) {send : Send} (hs : send ∈ new) :
    ∃ p, Owed x.broker id h p ∧ Tells x.broker h p send := by
  obtain ⟨p, hp, htells⟩ := exists_left_of_mem_right hx.told hs
  exact ⟨p, Owed.of_row hb hh hp, htells⟩

theorem instances_of_head (hx : Broadcast id h x x' new) (hb : x.broker.Coherent)
    (hh : x.broker.heads.get? id = some h) (i : InstanceId) : x'.broker.instances.get? i =
      (x.broker.instances.get? i).filter fun inst => inst.head ≠ id := by
  rw [hx.instances]
  cases hi : x.broker.instances.get? i with
  | none => simp
  | some inst =>
    have hmem : i ∈ h.instances ↔ inst.head = id := by
      constructor
      · intro hmem
        exact (Owed.of_row hb hh (Table.mem_rows.mpr ⟨hmem, hi⟩)).head
      · rintro rfl
        obtain ⟨h', hh', -, -, hmem⟩ := hb.listed hi
        obtain rfl : h = h' := Option.some.inj (hh.symm.trans hh')
        exact hmem
    simp only [hmem, Option.filter_some]
    split <;> simp [*]

theorem instances_of_others (hx : Broadcast id h x x' new) (hb : x.broker.Coherent)
    (hh : x.broker.heads.get? id = some h) {id' : HeadId} {h' : Head ω} (hne : id' ≠ id)
    (hh' : x.broker.heads.get? id' = some h') {i : InstanceId} (hi : i ∈ h'.instances) :
    x'.broker.instances.get? i = x.broker.instances.get? i := by
  obtain ⟨inst, hget, hhead⟩ := (hb.tallies hh').member hi
  rw [hx.instances_of_head hb hh, hget, Option.filter_some, if_pos (by simpa [hhead] using hne)]

theorem told_session (hx : Broadcast id h x x' new) (hb : x.broker.Coherent)
    (hh : x.broker.heads.get? id = some h) (s : SessionId) :
    List.Forall₂ (Tells x.broker h)
      ((x.broker.instances.rows h.instances).filter (·.2.session = s)) (resultsFor s id new) := by
  have htold : List.Forall₂ (fun p send => Owed x.broker id h p ∧ Tells x.broker h p send)
      (x.broker.instances.rows h.instances) new :=
    (List.forall₂_and_left _ _).mpr ⟨fun _ hp => Owed.of_row hb hh hp, hx.told⟩
  refine (List.rel_filter ?_ htold).imp fun _ _ hp => hp.2
  rintro p send ⟨howed, htells⟩
  simp [htells.purpose, howed.head]

theorem resultsFor_of_mem (hx : Broadcast id h x x' new) (hb : x.broker.Coherent)
    (hh : x.broker.heads.get? id = some h) {i : InstanceId} {inst : Instance}
    (hi : x.broker.instances.get? i = some inst) (hmem : i ∈ h.instances) :
    ∃ send, resultsFor inst.session id new = [send] ∧ Tells x.broker h (i, inst) send := by
  -- A head gives a session one instance at most, so the filter keeps one row.
  have honly : (x.broker.instances.rows h.instances).filter (·.2.session = inst.session) =
      [(i, inst)] := by
    have hrow : (i, inst) ∈ x.broker.instances.rows h.instances := Table.mem_rows.mpr ⟨hmem, hi⟩
    have hnodup : (x.broker.instances.rows h.instances).Nodup := by
      refine List.Nodup.of_map Prod.fst ?_
      rw [map_fst_rows hb hh]
      exact (hb.tallies hh).nodup
    rw [List.filter_congr (q := fun p => p = (i, inst)), List.filter_eq, hnodup.count, if_pos hrow]
    · rfl
    · rintro ⟨j, inst'⟩ hj
      have howed := Owed.of_row hb hh hj
      have hrow' := Owed.of_row hb hh hrow
      rw [decide_eq_decide]
      constructor
      · intro hsession
        obtain rfl : j = i := hb.instance_unique howed.present hrow'.present
          (howed.head.trans hrow'.head.symm) hsession
        exact congrArg (Prod.mk j) (Option.some.inj (howed.present.symm.trans hi))
      · rintro heq
        rw [heq]
  have htold := hx.told_session hb hh inst.session
  rw [honly] at htold
  obtain ⟨send, _, htells, hnil, hsends⟩ := List.forall₂_cons_left_iff.mp htold
  rw [List.forall₂_nil_left_iff.mp hnil] at hsends
  exact ⟨send, hsends, htells⟩

theorem resultsFor_of_forall (hx : Broadcast id h x x' new) (hb : x.broker.Coherent)
    (hh : x.broker.heads.get? id = some h) {s : SessionId}
    (hnone : ∀ i ∈ h.instances, ∀ inst, x.broker.instances.get? i = some inst → inst.session ≠ s) :
    resultsFor s id new = [] := by
  have hempty : (x.broker.instances.rows h.instances).filter (·.2.session = s) = [] := by
    rw [List.filter_eq_nil_iff]
    rintro ⟨i, inst⟩ hp
    obtain ⟨hmem, hi⟩ := Table.mem_rows.mp hp
    simpa using hnone i hmem inst hi
  have htold := hx.told_session hb hh s
  rw [hempty] at htold
  exact List.forall₂_nil_left_iff.mp htold

theorem awaited? (hx : Broadcast id h x x' new) (hb : x.broker.Coherent)
    (hh : x.broker.heads.get? id = some h) (s : SessionId) (token : UInt64) :
    x'.broker.awaited? s token =
      (x.broker.awaited? s token).filter fun i => decide (i ∉ h.instances) := by
  simp only [Broker.awaited?, hx.sessions]
  cases hs : x.broker.sessions.get? s with
  | none => rfl
  | some sess =>
    simp only [Option.map_some, Option.bind_some, Session.foldl_hear_pending]
    cases hpending : sess.pending.get? token with
    | none => simp
    | some i =>
      have hawaited : x.broker.awaited? s token = some i := by simp [Broker.awaited?, hs, hpending]
      obtain ⟨inst, hi, rfl, rfl⟩ := hb.awaited.mp hawaited
      by_cases hmem : i ∈ h.instances
      · have htoken := (Owed.of_row hb hh (Table.mem_rows.mpr ⟨hmem, hi⟩)).token
        obtain ⟨send, hsend, -⟩ := hx.resultsFor_of_mem hb hh hi hmem
        rw [if_pos ⟨htoken, by simp [hsend]⟩, Option.filter_some, if_neg (by simpa using hmem)]
      · -- Under the same token the session would hold an instance of the head in its place.
        rw [if_neg, Option.filter_some, if_pos (by simpa using hmem)]
        rintro ⟨htoken, hne⟩
        refine hne (hx.resultsFor_of_forall hb hh fun j hj inst' hj' hsession => hmem ?_)
        have howed := Owed.of_row hb hh (Table.mem_rows.mpr ⟨hj, hj'⟩)
        have hsame := hb.awaited?_of_instance hj'
        rw [hsession, howed.token, ← htoken, hawaited] at hsame
        exact Option.some.inj hsame ▸ hj

theorem coherent (hx : Broadcast id h x x' new) (hb : x.broker.Coherent)
    (hh : x.broker.heads.get? id = some h) : x'.broker.Coherent := by
  have hkept {i inst} (hi : x'.broker.instances.get? i = some inst) :
      i ∉ h.instances ∧ x.broker.instances.get? i = some inst := by
    rw [hx.instances] at hi
    split at hi
    · cases hi
    · exact ⟨‹_›, hi⟩
  have hother {i inst} (hi : x.broker.instances.get? i = some inst) (hnot : i ∉ h.instances) :
      inst.head ≠ id := by
    obtain ⟨h', hh', -, -, hmem⟩ := hb.listed hi
    rintro rfl
    rw [hh] at hh'
    cases hh'
    exact hnot hmem
  constructor
  · intro s hs
    rw [hx.nextId] at hs
    rw [hx.sessions, hb.session_fresh hs, Option.map_none]
  · intro id' hid
    rw [hx.nextId] at hid
    rw [hx.heads, Table.get?_erase, hb.head_fresh hid, ite_self]
  · intro i hi
    rw [hx.nextId] at hi
    rw [hx.instances, hb.instance_fresh hi, ite_self]
  · intro s token i
    rw [hx.awaited? hb hh, Option.filter_eq_some_iff, hb.awaited]
    constructor
    · rintro ⟨⟨inst, hi, hrest⟩, hnot⟩
      exact ⟨inst, by rw [hx.instances, if_neg (by simpa using hnot), hi], hrest⟩
    · rintro ⟨inst, hi, hrest⟩
      obtain ⟨hnot, hi⟩ := hkept hi
      exact ⟨⟨inst, hi, hrest⟩, by simpa using hnot⟩
  · intro i inst hi
    obtain ⟨hnot, hi⟩ := hkept hi
    obtain ⟨h', hh', hrest⟩ := hb.listed hi
    exact ⟨h', by rw [hx.heads, Table.get?_erase, if_neg (hother hi hnot), hh'], hrest⟩
  · intro id' h' hh'
    rw [hx.heads, Table.get?_erase] at hh'
    split at hh'
    · cases hh'
    · rename_i hid
      exact (hb.tallies hh').congr fun i hi => hx.instances_of_others hb hh hid hh' hi
  · intro i inst hi
    exact hb.unreplied (hkept hi).2

end Broadcast

end Exchange

end Arbiter
