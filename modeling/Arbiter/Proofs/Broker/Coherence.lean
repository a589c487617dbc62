import Mathlib.Data.List.Count
import Arbiter.Broker.Operation

/-!
The broker's tables agree. What a session has pending, what a head lists and what the table of
instances holds are three views of one set of instances, and the live counter of a head counts those
of them that are still to answer. This holds after every change that keeps the three in step, also
while heads without a live instance wait to be resolved.
-/

namespace Arbiter

namespace Table

def unanswered (t : Table InstanceId Instance) (i : InstanceId) : Bool :=
  (t.get? i).any (!·.verdictReceived)

variable {t : Table InstanceId Instance}

theorem unanswered_eq {i : InstanceId} {inst : Instance} (hi : t.get? i = some inst) :
    t.unanswered i = !inst.verdictReceived := by
  simp [unanswered, hi]

theorem unanswered_erase (t : Table InstanceId Instance) (i : InstanceId) :
    (t.erase i).unanswered = fun j => t.unanswered j && j != i := by
  funext j
  by_cases h : j = i <;> simp [unanswered, get?_erase, h]

theorem unanswered_modify (t : Table InstanceId Instance) (i : InstanceId) :
    (t.modify i Instance.giveVerdict).unanswered = fun j => t.unanswered j && j != i := by
  funext j
  by_cases h : j = i
  · subst h
    cases hi : t.get? j <;> simp [unanswered, get?_modify, hi, Instance.giveVerdict]
  · simp [unanswered, get?_modify, h]

theorem countP_unanswered_except {l : List InstanceId} (hl : l.Nodup) {i : InstanceId}
    (hi : i ∈ l) : l.countP (fun j => t.unanswered j && j != i) =
      l.countP t.unanswered - if t.unanswered i then 1 else 0 := by
  have herase := List.countP_erase t.unanswered l i
  rw [hl.erase_eq_filter, List.countP_filter] at herase
  simpa [hi] using herase

end Table

/-- The head lists instances of its own, each once, and counts those that are still to answer. -/
structure Head.Tallies {ω : Type} (h : Head ω) (id : HeadId) (t : Table InstanceId Instance) :
    Prop where
  member {i} : i ∈ h.instances → ∃ inst, t.get? i = some inst ∧ inst.head = id
  nodup : h.instances.Nodup
  live : h.live = h.instances.countP t.unanswered

namespace Head

variable {ω : Type} {h : Head ω} {id : HeadId} {t t' : Table InstanceId Instance}
  {i : InstanceId} {inst : Instance}

theorem tallies_new (m : Message) (e : Event) (waiter : Option ω) :
    (Head.new m e waiter).Tallies id t :=
  ⟨fun hi => absurd hi List.not_mem_nil, List.nodup_nil, rfl⟩

namespace Tallies

theorem congr (ht : h.Tallies id t) (hsame : ∀ i ∈ h.instances, t'.get? i = t.get? i) :
    h.Tallies id t' where
  member hi := by rw [hsame _ hi]; exact ht.member hi
  nodup := ht.nodup
  live := ht.live.trans (List.countP_congr fun i hi => by simp [Table.unanswered, hsame i hi])

theorem record (ht : h.Tallies id t) (hmem : i ∈ h.instances) (hi : t.get? i = some inst)
    (verdict : Verdict) (decider : Decider) :
    (Exchange.recordVerdict h (!inst.verdictReceived) verdict decider).Tallies id
      (t.modify i Instance.giveVerdict) where
  member {j} hj := by
    obtain ⟨inst', hj', hhead⟩ := ht.member hj
    rw [Table.get?_modify]
    split
    · exact ⟨inst'.giveVerdict, by simp [hj'], hhead⟩
    · exact ⟨inst', hj', hhead⟩
  nodup := ht.nodup
  live := by
    rw [Table.unanswered_modify, Exchange.recordVerdict,
      Table.countP_unanswered_except ht.nodup hmem, Table.unanswered_eq hi, ht.live]
    split <;> rfl

theorem withdraw (ht : h.Tallies id t) (hmem : i ∈ h.instances) (hi : t.get? i = some inst) :
    (Exchange.withdrawInstance h i inst.verdictReceived).Tallies id (t.erase i) := by
  have hinstances : (Exchange.withdrawInstance h i inst.verdictReceived).instances =
      h.instances.erase i := by
    unfold Exchange.withdrawInstance
    split <;> rfl
  have hlive : (Exchange.withdrawInstance h i inst.verdictReceived).live =
      (h.instances.erase i).countP t.unanswered := by
    have hcount := List.countP_erase t.unanswered h.instances i
    simp only [hmem, Table.unanswered_eq hi, true_and, ← ht.live] at hcount
    rw [hcount]
    unfold Exchange.withdrawInstance
    split <;> simp_all
  refine ⟨fun {j} hj => ?_, hinstances ▸ ht.nodup.erase i, ?_⟩
  · rw [hinstances, ht.nodup.mem_erase_iff] at hj
    rw [Table.get?_erase, if_neg hj.1]
    exact ht.member hj.2
  · rw [hlive, hinstances]
    refine List.countP_congr fun j hj => ?_
    rw [ht.nodup.mem_erase_iff] at hj
    simp [Table.unanswered_erase, hj.1]

theorem add (ht : h.Tallies id t) (hfresh : t.get? i = none) (token : UInt64)
    (session : SessionId) :
    { h with instances := h.instances ++ [i], live := h.live + 1 : Head ω }.Tallies id
      (t.insert i (.new token session id)) := by
  have hne {j} (hj : j ∈ h.instances) : j ≠ i := fun hji => by
    obtain ⟨inst, hj', -⟩ := ht.member hj
    rw [hji, hfresh] at hj'
    cases hj'
  refine ⟨fun {j} hj => ?_, ?_, ?_⟩
  · rw [Table.get?_insert]
    split
    · exact ⟨_, rfl, rfl⟩
    · rename_i hji
      exact ht.member (by simpa [hji] using hj)
  · refine List.nodup_append.mpr ⟨ht.nodup, by simp, fun j hj k hk => ?_⟩
    rw [List.mem_singleton.mp hk]
    exact hne hj
  · have hcount : h.instances.countP (t.insert i (.new token session id)).unanswered =
        h.instances.countP t.unanswered :=
      List.countP_congr fun j hj => by simp [Table.unanswered, Table.get?_insert, hne hj]
    have hnew : (t.insert i (.new token session id)).unanswered i = true := by
      simp [Table.unanswered, Table.get?_insert, Instance.new]
    rw [List.countP_append, hcount, ht.live, List.countP_singleton, hnew]
    rfl

end Tallies

end Head

namespace Broker

variable {ω : Type}

def awaited? (b : Broker ω) (session : SessionId) (token : UInt64) : Option InstanceId :=
  (b.sessions.get? session).bind (·.pending.get? token)

structure Coherent (b : Broker ω) : Prop where
  session_fresh {s} : b.nextId ≤ s.number → b.sessions.get? s = none
  head_fresh {id} : b.nextId ≤ id.number → b.heads.get? id = none
  instance_fresh {i} : b.nextId ≤ i.number → b.instances.get? i = none
  awaited {s token i} : b.awaited? s token = some i ↔
    ∃ inst, b.instances.get? i = some inst ∧ inst.session = s ∧ inst.token = token
  listed {i inst} : b.instances.get? i = some inst →
    ∃ h, b.heads.get? inst.head = some h ∧ h.token = inst.token ∧ h.kind = .ask ∧ i ∈ h.instances
  tallies {id h} : b.heads.get? id = some h → h.Tallies id b.instances
  unreplied {i inst} : b.instances.get? i = some inst → inst.replied = false

theorem coherent_new (capacity : Nat) : (new capacity : Broker ω).Coherent := by
  constructor <;> simp [new, awaited?]

def recordAnswer (b : Broker ω) (i : InstanceId) (inst : Instance) (h : Head ω) (verdict : Verdict)
    (uid : UInt32) : Broker ω :=
  { b with
    instances := b.instances.modify i Instance.giveVerdict
    heads := b.heads.modify inst.head fun _ =>
      Exchange.recordVerdict h (!inst.verdictReceived) verdict ⟨i, uid⟩ }

section Tables

variable {b : Broker ω} {s : SessionId} {sess : Session} {id : HeadId} {h : Head ω}
  {i : InstanceId} {inst : Instance}

theorem instances_recordAnswer (hi : b.instances.get? i = some inst) (h : Head ω)
    (verdict : Verdict) (uid : UInt32) (j : InstanceId) :
    (b.recordAnswer i inst h verdict uid).instances.get? j =
      if j = i then some inst.giveVerdict else b.instances.get? j :=
  Table.get?_modify_of_get? hi _ j

theorem heads_recordAnswer (hh : b.heads.get? inst.head = some h) (i : InstanceId)
    (verdict : Verdict) (uid : UInt32) (id : HeadId) :
    (b.recordAnswer i inst h verdict uid).heads.get? id =
      if id = inst.head then
        some (Exchange.recordVerdict h (!inst.verdictReceived) verdict ⟨i, uid⟩)
      else b.heads.get? id :=
  Table.get?_modify_of_get? hh _ id

theorem instances_addInstance (b : Broker ω) (s : SessionId) (id : HeadId) (token : UInt64)
    (j : InstanceId) : (b.addInstance s id token).instances.get? j =
      if j = ⟨b.nextId⟩ then some (.new token s id) else b.instances.get? j :=
  Table.get?_insert ..

theorem heads_addInstance (hh : b.heads.get? id = some h) (s : SessionId) (token : UInt64)
    (id' : HeadId) : (b.addInstance s id token).heads.get? id' =
      if id' = id then
        some { h with instances := h.instances ++ [⟨b.nextId⟩], live := h.live + 1 }
      else b.heads.get? id' :=
  Table.get?_modify_of_get? hh _ id'

theorem sessions_addInstance (hs : b.sessions.get? s = some sess) (id : HeadId) (token : UInt64)
    (s' : SessionId) : (b.addInstance s id token).sessions.get? s' =
      if s' = s then some (sess.await token ⟨b.nextId⟩) else b.sessions.get? s' :=
  Table.get?_modify_of_get? hs _ s'

theorem awaited?_addInstance (hs : b.sessions.get? s = some sess) (id : HeadId) (token : UInt64)
    (s' : SessionId) (token' : UInt64) : (b.addInstance s id token).awaited? s' token' =
      if s' = s ∧ token' = token then some ⟨b.nextId⟩ else b.awaited? s' token' := by
  rw [awaited?, sessions_addInstance hs, awaited?]
  by_cases hss : s' = s
  · subst s'
    simp [hs, Session.await, Table.get?_insert]
  · simp [hss]

end Tables

namespace Coherent

variable {b : Broker ω}

theorem awaited?_of_instance (hb : b.Coherent) {i : InstanceId} {inst : Instance}
    (hi : b.instances.get? i = some inst) : b.awaited? inst.session inst.token = some i :=
  hb.awaited.mpr ⟨inst, hi, rfl, rfl⟩

theorem session_issued (hb : b.Coherent) {s : SessionId} {sess : Session}
    (hs : b.sessions.get? s = some sess) : s.number < b.nextId := by
  by_contra hfresh
  rw [hb.session_fresh (Nat.not_lt.mp hfresh)] at hs
  cases hs

theorem instance_unique (hb : b.Coherent) {i j : InstanceId} {inst inst' : Instance}
    (hi : b.instances.get? i = some inst) (hj : b.instances.get? j = some inst')
    (hhead : inst.head = inst'.head) (hsession : inst.session = inst'.session) : i = j := by
  obtain ⟨h, hh, htoken, -⟩ := hb.listed hi
  obtain ⟨h', hh', htoken', -⟩ := hb.listed hj
  rw [← hhead, hh] at hh'
  cases hh'
  have hi' := hb.awaited?_of_instance hi
  have hj' := hb.awaited?_of_instance hj
  rw [hsession, ← htoken, htoken', hj'] at hi'
  exact (Option.some.inj hi').symm

theorem openSession (hb : b.Coherent) (uid : UInt32) (channel : ChannelId) :
    (b.openSession uid channel).2.Coherent := by
  have hawaited (s token) :
      (b.openSession uid channel).2.awaited? s token = b.awaited? s token := by
    simp only [awaited?, Broker.openSession, Table.get?_insert]
    split
    · subst s
      rw [hb.session_fresh (Nat.le_refl _)]
      rfl
    · rfl
  refine { hb with
    session_fresh := fun {s} hs => ?_
    head_fresh := fun h => hb.head_fresh (Nat.le_of_succ_le h)
    instance_fresh := fun h => hb.instance_fresh (Nat.le_of_succ_le h)
    awaited := fun {s token i} => by rw [hawaited]; exact hb.awaited }
  have hne : s ≠ ⟨b.nextId⟩ := by
    rintro rfl
    exact Nat.not_succ_le_self _ hs
  simp only [Broker.openSession, Table.get?_insert, if_neg hne]
  exact hb.session_fresh (Nat.le_of_succ_le hs)

theorem modifySession (hb : b.Coherent) (id : SessionId) {f : Session → Session}
    (hf : ∀ s, (f s).pending = s.pending) : (b.modifySession id f).Coherent := by
  have hawaited (s token) : (b.modifySession id f).awaited? s token = b.awaited? s token := by
    simp only [awaited?, Broker.modifySession, Table.get?_modify]
    split
    · cases b.sessions.get? s <;> simp [hf]
    · rfl
  refine { hb with
    session_fresh := fun {s} hs => ?_
    awaited := fun {s token i} => by rw [hawaited]; exact hb.awaited }
  simp [Broker.modifySession, Table.get?_modify, hb.session_fresh hs]

theorem insertHead (hb : b.Coherent) (m : Message) (e : Event) (waiter : Option ω) :
    { b with
      heads := b.heads.insert ⟨b.nextId⟩ (.new m e waiter)
      nextId := b.nextId + 1 }.Coherent := by
  have hnone : b.heads.get? ⟨b.nextId⟩ = none := hb.head_fresh (Nat.le_refl _)
  refine { hb with
    session_fresh := fun h => hb.session_fresh (Nat.le_of_succ_le h)
    instance_fresh := fun h => hb.instance_fresh (Nat.le_of_succ_le h)
    head_fresh := fun {id} hid => ?_
    listed := fun {i inst} hi => ?_
    tallies := fun {id h} hh => ?_ }
  · have hne : id ≠ ⟨b.nextId⟩ := by
      rintro rfl
      exact Nat.not_succ_le_self _ hid
    rw [Table.get?_insert, if_neg hne]
    exact hb.head_fresh (Nat.le_of_succ_le hid)
  · obtain ⟨h, hh, hrest⟩ := hb.listed hi
    have hne : inst.head ≠ ⟨b.nextId⟩ := fun hid => by simp [← hid, hh] at hnone
    exact ⟨h, by rw [Table.get?_insert, if_neg hne, hh], hrest⟩
  · rw [Table.get?_insert] at hh
    split at hh
    · cases hh
      exact Head.tallies_new m e waiter
    · exact hb.tallies hh

theorem setWaiter (hb : b.Coherent) (id : HeadId) (waiter : ω) :
    (b.modifyHead id fun h => { h with waiter := some waiter }).Coherent := by
  refine { hb with
    head_fresh := fun {id'} hid => ?_
    listed := fun {i inst} hi => ?_
    tallies := fun {id' h} hh => ?_ }
  · simp [modifyHead, Table.get?_modify, hb.head_fresh hid]
  · obtain ⟨h, hh, hrest⟩ := hb.listed hi
    rw [modifyHead, Table.get?_modify, hh]
    split
    · exact ⟨_, rfl, hrest⟩
    · exact ⟨h, rfl, hrest⟩
  · rw [modifyHead, Table.get?_modify] at hh
    split at hh
    · obtain ⟨old, hold, rfl⟩ := Option.map_eq_some_iff.mp hh
      have ht := hb.tallies hold
      exact ⟨ht.member, ht.nodup, ht.live⟩
    · exact hb.tallies hh

theorem eraseHead (hb : b.Coherent) {id : HeadId} {h : Head ω} (hh : b.heads.get? id = some h)
    (hempty : h.instances = []) : { b with heads := b.heads.erase id }.Coherent := by
  refine { hb with
    head_fresh := fun {id'} hid => ?_
    listed := fun {i inst} hi => ?_
    tallies := fun {id' h'} hh' => ?_ }
  · simp [Table.get?_erase, hb.head_fresh hid]
  · obtain ⟨h', hh', htoken, hkind, hmem⟩ := hb.listed hi
    have hne : inst.head ≠ id := fun hid => by
      rw [hid, hh] at hh'
      cases hh'
      simp [hempty] at hmem
    exact ⟨h', by rw [Table.get?_erase, if_neg hne, hh'], htoken, hkind, hmem⟩
  · rw [Table.get?_erase] at hh'
    split at hh'
    · cases hh'
    · exact hb.tallies hh'

section RecordAnswer

variable {i : InstanceId} {inst : Instance} {h : Head ω} {verdict : Verdict} {uid : UInt32}

theorem kept_recordAnswer (hi : b.instances.get? i = some inst) {j : InstanceId} {inst' : Instance}
    (hj : (b.recordAnswer i inst h verdict uid).instances.get? j = some inst') :
    ∃ old, b.instances.get? j = some old ∧ inst'.token = old.token ∧ inst'.session = old.session ∧
      inst'.head = old.head ∧ inst'.replied = old.replied := by
  -- The flag is all that changes in an instance, and no field of the structure looks at it.
  rw [instances_recordAnswer hi] at hj
  split at hj
  · subst j
    cases hj
    exact ⟨inst, hi, rfl, rfl, rfl, rfl⟩
  · exact ⟨inst', hj, rfl, rfl, rfl, rfl⟩

theorem awaited_recordAnswer (hb : b.Coherent) (hi : b.instances.get? i = some inst)
    {s : SessionId} {token : UInt64} {j : InstanceId} : b.awaited? s token = some j ↔
      ∃ inst', (b.recordAnswer i inst h verdict uid).instances.get? j = some inst' ∧
        inst'.session = s ∧ inst'.token = token := by
  refine hb.awaited.trans ⟨?_, ?_⟩
  · rintro ⟨old, hj, hs, ht⟩
    rw [instances_recordAnswer hi]
    split
    · subst j
      obtain rfl : inst = old := Option.some.inj (hi.symm.trans hj)
      exact ⟨_, rfl, hs, ht⟩
    · exact ⟨old, hj, hs, ht⟩
  · rintro ⟨inst', hj, hs, ht⟩
    obtain ⟨old, hj', htoken, hsession, -⟩ := kept_recordAnswer hi hj
    exact ⟨old, hj', hsession ▸ hs, htoken ▸ ht⟩

theorem tallies_recordAnswer (hb : b.Coherent) (hi : b.instances.get? i = some inst)
    (hh : b.heads.get? inst.head = some h) {id : HeadId} {h' : Head ω}
    (hh' : (b.recordAnswer i inst h verdict uid).heads.get? id = some h') :
    h'.Tallies id (b.recordAnswer i inst h verdict uid).instances := by
  rw [heads_recordAnswer hh] at hh'
  split at hh'
  · subst id
    cases hh'
    obtain ⟨h', hh', -, -, hmem⟩ := hb.listed hi
    obtain rfl : h = h' := Option.some.inj (hh.symm.trans hh')
    exact (hb.tallies hh).record hmem hi verdict ⟨i, uid⟩
  · rename_i hid
    refine (hb.tallies hh').congr fun j hj => ?_
    obtain ⟨inst', hj', hhead⟩ := (hb.tallies hh').member hj
    rw [instances_recordAnswer hi, if_neg]
    rintro rfl
    rw [hi] at hj'
    cases hj'
    exact hid hhead.symm

theorem recordAnswer (hb : b.Coherent) (hi : b.instances.get? i = some inst)
    (hh : b.heads.get? inst.head = some h) (verdict : Verdict) (uid : UInt32) :
    (b.recordAnswer i inst h verdict uid).Coherent := by
  refine { hb with
    head_fresh := fun {id} hid => ?_
    instance_fresh := fun {j} hj => ?_
    awaited := hb.awaited_recordAnswer hi
    listed := fun {j inst'} hj => ?_
    tallies := hb.tallies_recordAnswer hi hh
    unreplied := fun {j inst'} hj => ?_ }
  · rw [heads_recordAnswer hh, if_neg, hb.head_fresh hid]
    rintro rfl
    rw [hb.head_fresh hid] at hh
    cases hh
  · rw [instances_recordAnswer hi, if_neg, hb.instance_fresh hj]
    rintro rfl
    rw [hb.instance_fresh hj] at hi
    cases hi
  · obtain ⟨old, hj', htoken, -, hhead, -⟩ := kept_recordAnswer hi hj
    obtain ⟨h', hh', hrest⟩ := hb.listed hj'
    rw [heads_recordAnswer hh, hhead, htoken]
    split
    · rename_i hid
      rw [hid, hh] at hh'
      cases hh'
      exact ⟨_, rfl, hrest⟩
    · exact ⟨h', hh', hrest⟩
  · obtain ⟨old, hj', -, -, -, hreplied⟩ := kept_recordAnswer hi hj
    exact hreplied.trans (hb.unreplied hj')

end RecordAnswer

section AddInstance

variable {s : SessionId} {sess : Session} {id : HeadId} {h : Head ω} {token : UInt64}

theorem awaited_addInstance (hb : b.Coherent) (hs : b.sessions.get? s = some sess)
    (hfree : sess.pending.get? token = none) {s' : SessionId} {token' : UInt64} {j : InstanceId} :
    (b.addInstance s id token).awaited? s' token' = some j ↔
      ∃ inst, (b.addInstance s id token).instances.get? j = some inst ∧
        inst.session = s' ∧ inst.token = token' := by
  have hnone : b.instances.get? ⟨b.nextId⟩ = none := hb.instance_fresh (Nat.le_refl _)
  rw [awaited?_addInstance hs, instances_addInstance]
  split
  · rename_i hst
    obtain ⟨rfl, rfl⟩ := hst
    -- The session had nothing pending under the token, so the new instance is the only one.
    constructor
    · intro hj
      rw [if_pos (Option.some.inj hj).symm]
      exact ⟨_, rfl, rfl, rfl⟩
    · rintro ⟨inst, hj, hsession, htoken⟩
      split at hj
      · simp [*]
      · have hpending := hb.awaited.mpr ⟨inst, hj, hsession, htoken⟩
        simp [awaited?, hs, hfree] at hpending
  · rename_i hst
    rw [hb.awaited]
    split
    · rename_i hj
      subst j
      simp only [hnone, reduceCtorEq, false_and, exists_false, Option.some.injEq, false_iff,
        not_exists, not_and]
      rintro inst rfl hsession htoken
      exact hst ⟨hsession.symm, htoken.symm⟩
    · rfl

theorem listed_addInstance (hb : b.Coherent) (hh : b.heads.get? id = some h) (hkind : h.kind = .ask)
    {j : InstanceId} {inst : Instance}
    (hj : (b.addInstance s id h.token).instances.get? j = some inst) :
    ∃ h', (b.addInstance s id h.token).heads.get? inst.head = some h' ∧ h'.token = inst.token ∧
      h'.kind = .ask ∧ j ∈ h'.instances := by
  rw [instances_addInstance] at hj
  split at hj
  · subst j
    cases hj
    exact ⟨_, (heads_addInstance hh s h.token id).trans (if_pos rfl), rfl, hkind,
      List.mem_append_right _ (List.mem_singleton_self _)⟩
  · obtain ⟨h', hh', htoken, hkind', hmem⟩ := hb.listed hj
    rw [heads_addInstance hh]
    split
    · rename_i hid
      obtain rfl : h = h' := Option.some.inj (hh.symm.trans (hid ▸ hh'))
      exact ⟨_, rfl, htoken, hkind', List.mem_append_left _ hmem⟩
    · exact ⟨h', hh', htoken, hkind', hmem⟩

theorem tallies_addInstance (hb : b.Coherent) (hh : b.heads.get? id = some h) {id' : HeadId}
    {h' : Head ω} (hh' : (b.addInstance s id token).heads.get? id' = some h') :
    h'.Tallies id' (b.addInstance s id token).instances := by
  have hnone : b.instances.get? ⟨b.nextId⟩ = none := hb.instance_fresh (Nat.le_refl _)
  rw [heads_addInstance hh] at hh'
  split at hh'
  · subst id'
    cases hh'
    exact (hb.tallies hh).add hnone token s
  · refine (hb.tallies hh').congr fun j hj => ?_
    obtain ⟨inst, hj', -⟩ := (hb.tallies hh').member hj
    rw [instances_addInstance, if_neg]
    rintro rfl
    rw [hnone] at hj'
    cases hj'

theorem addInstance (hb : b.Coherent) (hs : b.sessions.get? s = some sess)
    (hh : b.heads.get? id = some h) (hkind : h.kind = .ask)
    (hfree : sess.pending.get? h.token = none) : (b.addInstance s id h.token).Coherent := by
  constructor
  · intro s' hs'
    have hnone := hb.session_fresh (Nat.le_of_succ_le hs')
    simp [Broker.addInstance, Table.get?_modify, hnone]
  · intro id' hid
    have hnone := hb.head_fresh (Nat.le_of_succ_le hid)
    rw [heads_addInstance hh, if_neg, hnone]
    rintro rfl
    rw [hh] at hnone
    cases hnone
  · intro j hj
    rw [instances_addInstance, if_neg, hb.instance_fresh (Nat.le_of_succ_le hj)]
    rintro rfl
    exact Nat.not_succ_le_self _ hj
  · exact hb.awaited_addInstance hs hfree
  · exact hb.listed_addInstance hh hkind
  · exact hb.tallies_addInstance hh
  · intro j inst hj
    rw [instances_addInstance] at hj
    split at hj
    · cases hj
      rfl
    · exact hb.unreplied hj

end AddInstance

end Coherent

end Broker

end Arbiter
