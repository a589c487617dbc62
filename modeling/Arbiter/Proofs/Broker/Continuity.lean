import Arbiter.Proofs.Broker.Effects

/-!
What sessions and heads keep while the broker is at work. A session keeps its user and its channel,
and its registrations unless it changes them itself; a head keeps its event and the one who waits
for it.
-/

namespace Arbiter

def Session.profile (sess : Session) : UInt32 × ChannelId × List Filter :=
  (sess.uid, sess.channel, sess.registrations)

def Head.subject {ω : Type} (h : Head ω) : Message × UInt64 × Filter × EventKind × Option ω :=
  (h.message, h.token, h.key, h.kind, h.waiter)

structure Head.Describes {ω : Type} (h : Head ω) (e : Event) : Prop where
  decodes : h.message.decode = .ok (.event e)
  token : h.token = e.token
  key : h.key = e.key
  kind : h.kind = if e.needsVerdict then .ask else .notify

namespace Exchange

variable {ω σ : Type} {t : Transport σ} {x y : Exchange ω σ} {id : HeadId}

inductive ProfileChange (x : Exchange ω σ) (op : Operation ω) (r : Response) (s : SessionId) :
    Option (UInt32 × ChannelId × List Filter) → Prop where
  | same (hopen : ∀ uid channel, op = .openSession uid channel → r ≠ .opened s)
      (htorn : ∀ report, op = .teardown s → r ≠ .tornDown report) :
      ProfileChange x op r s ((x.broker.sessions.get? s).map Session.profile)
  | opened {uid channel} (hop : op = .openSession uid channel) (hr : r = .opened s)
      (hs : s = ⟨x.broker.nextId⟩) : ProfileChange x op r s (some (uid, channel, []))
  | registered {sess regs} (hop : ∃ g, op = .register s g ∨ op = .unregister s g)
      (hs : x.broker.sessions.get? s = some sess)
      (hregs : ∀ f ∈ regs, f ∈ sess.registrations ∨ sess.MayRegister f) :
      ProfileChange x op r s (some (sess.uid, sess.channel, regs))
  | tornDown (hop : op = .teardown s) : ProfileChange x op r s none

theorem Offer.profile (ho : Offer t id x y) (s : SessionId) :
    (y.broker.sessions.get? s).map Session.profile =
      (x.broker.sessions.get? s).map Session.profile := by
  cases ho with
  | sent => rfl
  | queued => exact Table.map_get?_modify _ _ _ fun _ => rfl
  | lost => exact Table.map_get?_modify _ _ _ fun _ => rfl

theorem offers_profile (h : Relation.ReflTransGen (Offer t id) x y) (s : SessionId) :
    (y.broker.sessions.get? s).map Session.profile =
      (x.broker.sessions.get? s).map Session.profile := by
  induction h with
  | refl => rfl
  | tail _ hoffer ih => rw [hoffer.profile, ih]

theorem Broadcast.profile {h : Head ω} {new : List Send} (hx : Broadcast id h x y new)
    (s : SessionId) : (y.broker.sessions.get? s).map Session.profile =
      (x.broker.sessions.get? s).map Session.profile := by
  rw [hx.sessions, Option.map_map]
  exact congrArg (fun g => Option.map g _)
    (funext fun sess => Session.foldl_hear (f := Session.profile) (fun _ _ => rfl) sess _)

theorem Effect.profile {op : Operation ω} {r : Response} {ids : List HeadId}
    (he : Effect t x op r y ids) (hb : x.broker.Coherent) (s : SessionId) :
    ProfileChange x op r s ((y.broker.sessions.get? s).map Session.profile) := by
  cases he with
  | refused => exact .same (fun _ _ _ => by simp) fun _ _ => by simp
  | opened uid channel =>
    have hsession : (x.broker.openSession uid channel).2.sessions.get? s =
        if s = ⟨x.broker.nextId⟩ then some (.new uid channel x.broker.settledCapacity)
        else x.broker.sessions.get? s := Table.get?_insert ..
    rw [withBroker, hsession]
    by_cases hs : s = ⟨x.broker.nextId⟩
    · rw [if_pos hs]
      exact .opened rfl (hs ▸ rfl) hs
    · rw [if_neg hs]
      refine .same (fun _ _ _ heq => hs ?_) fun _ hop => by simp at hop
      exact (Response.opened.inj heq).symm
  | @registered op s' regs hop hregs =>
    have hsame : ProfileChange x op .done s ((x.broker.sessions.get? s).map Session.profile) :=
      .same (fun _ _ _ => by simp) fun _ _ => by simp
    simp only [withBroker, Broker.modifySession, Table.get?_modify]
    split
    · subst s'
      cases hs : x.broker.sessions.get? s with
      | none =>
        rw [hs] at hsame
        exact hsame
      | some sess =>
        have hchange := ProfileChange.registered (r := .done) hop hs (hregs sess hs)
        exact hchange
    · exact hsame
  | offered r hop hy =>
    rw [offers_profile hy]
    refine .same (fun uid channel hopen => ?_) fun report htorn => ?_
    · rcases hop with rfl | ⟨_, rfl⟩ <;> cases hopen
    · rcases hop with rfl | ⟨_, rfl⟩ <;> cases htorn
  | @tornDown s' sess hs =>
    have hsession : (closing x.broker s' sess).broker.sessions.get? s =
        if s = s' then none else x.broker.sessions.get? s := by
      rw [(closing_spec hb hs).1.sessions, Table.get?_erase]
    rw [withBroker, hsession]
    by_cases hss : s = s'
    · rw [if_pos hss]
      exact .tornDown (hss ▸ rfl)
    · rw [if_neg hss]
      refine .same (fun _ _ hop => by cases hop) fun _ hop => absurd ?_ hss
      exact (Operation.teardown.inj hop).symm
  | _ => exact .same (fun _ _ hop => by cases hop) fun _ hop => by cases hop

theorem perform_profile (hb : x.broker.Coherent) (op : Operation ω) (s : SessionId) :
    ProfileChange x op (x.perform t op).1 s
      (((x.perform t op).2.broker.sessions.get? s).map Session.profile) :=
  perform_induction (P := fun z => ProfileChange x op (x.perform t op).1 s
      ((z.broker.sessions.get? s).map Session.profile)) hb op
    (fun he => he.profile hb s) fun _ _ hx hz => by rwa [hx.profile]

theorem Effect.session_cases {op : Operation ω} {r : Response} {ids : List HeadId}
    (he : Effect t x op r y ids) (hb : x.broker.Coherent)
    (hop : ∀ id', op ≠ .dispatchAll id' ∧ ∀ s, op ≠ .dispatch s id') {s : SessionId}
    {sess' : Session} (hs' : y.broker.sessions.get? s = some sess') :
    (s = ⟨x.broker.nextId⟩ ∧ ∃ uid channel, sess' = .new uid channel x.broker.settledCapacity) ∨
      ∃ sess regs, x.broker.sessions.get? s = some sess ∧
        sess' = { sess with registrations := regs } := by
  cases he with
  | opened uid channel =>
    rw [withBroker, Broker.openSession, Table.get?_insert] at hs'
    split at hs'
    · cases hs'
      exact .inl ⟨‹_›, uid, channel, rfl⟩
    · exact .inr ⟨sess', _, hs', rfl⟩
  | registered =>
    rw [withBroker, Broker.modifySession, Table.get?_modify] at hs'
    split at hs'
    · obtain ⟨sess, hs, rfl⟩ := Option.map_eq_some_iff.mp hs'
      exact .inr ⟨sess, _, hs, rfl⟩
    · exact .inr ⟨sess', _, hs', rfl⟩
  | offered _ hoffered =>
    rcases hoffered with rfl | ⟨s, rfl⟩
    · exact absurd rfl (hop _).1
    · exact absurd rfl ((hop _).2 s)
  | tornDown hs =>
    rw [withBroker, (closing_spec hb hs).1.sessions, Table.get?_erase] at hs'
    split at hs'
    · cases hs'
    · exact .inr ⟨sess', _, hs', rfl⟩
  | _ => exact .inr ⟨sess', _, hs', rfl⟩

/-- What an operation and its response may make of the subject of a head, until heads are
resolved. -/
inductive SubjectChange (x : Exchange ω σ) (op : Operation ω) (r : Response) (id : HeadId) :
    Option (Message × UInt64 × Filter × EventKind × Option ω) → Prop where
  | same : SubjectChange x op r id ((x.broker.heads.get? id).map Head.subject)
  | created {m e waiter} (hop : op = .createHead m waiter) (hr : r = .created id)
      (hid : id = ⟨x.broker.nextId⟩) (hm : m.decode = .ok (.event e)) :
      SubjectChange x op r id (some (Head.new m e waiter).subject)
  | waiterSet {h} {waiter : ω} (hop : op = .setWaiter id waiter)
      (hh : x.broker.heads.get? id = some h) :
      SubjectChange x op r id (some { h with waiter := some waiter : Head ω }.subject)
  | abandoned (hop : op = .abandon id) : SubjectChange x op r id none

theorem Offer.subject (ho : Offer t id x y) (id' : HeadId) :
    (y.broker.heads.get? id').map Head.subject = (x.broker.heads.get? id').map Head.subject := by
  cases ho with
  | sent => rfl
  | queued => exact Table.map_get?_modify _ _ _ fun _ => rfl
  | lost => rfl

theorem offers_subject (h : Relation.ReflTransGen (Offer t id) x y) (id' : HeadId) :
    (y.broker.heads.get? id').map Head.subject = (x.broker.heads.get? id').map Head.subject := by
  induction h with
  | refl => rfl
  | tail _ hoffer ih => rw [hoffer.subject, ih]

theorem withdrawInstance_subject (h : Head ω) (i : InstanceId) (answered : Bool) :
    (withdrawInstance h i answered).subject = h.subject := by
  unfold withdrawInstance
  split <;> rfl

theorem Closed.subject {s : SessionId} {b b' : Broker ω} {ready : List HeadId}
    (hc : Closed s b b' ready) (hb : b.Coherent) (id : HeadId) :
    (b'.heads.get? id).map Head.subject = (b.heads.get? id).map Head.subject := by
  by_cases hheld : ∃ i inst, b.instances.get? i = some inst ∧ inst.session = s ∧ inst.head = id
  · obtain ⟨i, inst, hi, hsession, rfl⟩ := hheld
    obtain ⟨h, hh, -⟩ := hb.listed hi
    rw [hc.touched hi hsession hh, hh, Option.map_some, Option.map_some,
      withdrawInstance_subject]
  · rw [hc.untouched fun i inst hi hsession hhead => hheld ⟨i, inst, hi, hsession, hhead⟩]

theorem Effect.subject {op : Operation ω} {r : Response} {ids : List HeadId}
    (he : Effect t x op r y ids) (hb : x.broker.Coherent) (id : HeadId) :
    SubjectChange x op r id ((y.broker.heads.get? id).map Head.subject) := by
  cases he with
  | created waiter hm =>
    simp only [withBroker, Table.get?_insert]
    split
    · rename_i hid
      exact .created rfl (hid ▸ rfl) hid hm
    · exact .same
  | @waiterSet id' h waiter hh =>
    simp only [withBroker, Broker.modifyHead, Table.get?_modify]
    split
    · subst id
      rw [hh]
      exact .waiterSet rfl hh
    · exact .same
  | abandoned hh =>
    simp only [withBroker, Table.get?_erase]
    split
    · rename_i hid
      exact .abandoned (hid ▸ rfl)
    · exact .same
  | offered r hop hy =>
    rw [offers_subject hy]
    exact .same
  | @answered s token sess i inst h result ready verdict delegate hs hpending hi hh =>
    have hsubject : ((x.broker.recordAnswer i inst h verdict sess.uid).heads.get? id).map
        Head.subject = (x.broker.heads.get? id).map Head.subject := by
      rw [Broker.heads_recordAnswer hh]
      split
      · subst id
        rw [hh]
        rfl
      · rfl
    rw [withBroker, hsubject]
    exact .same
  | tornDown hs =>
    rw [withBroker, (closing_spec hb hs).1.subject hb]
    exact .same
  | _ => exact .same

def Described (b : Broker ω) : Prop :=
  ∀ id h, b.heads.get? id = some h → ∃ e, h.Describes e

theorem Effect.described {op : Operation ω} {r : Response} {ids : List HeadId}
    (he : Effect t x op r y ids) (hb : x.broker.Coherent) (hd : Described x.broker) :
    Described y.broker := by
  intro id h' hh'
  have hchange := he.subject hb id
  rw [hh', Option.map_some] at hchange
  generalize hsubject : some h'.subject = subject at hchange
  have hkept {h : Head ω} (hh : x.broker.heads.get? id = some h)
      (hsame : (h'.message, h'.token, h'.key, h'.kind) = (h.message, h.token, h.key, h.kind)) :
      ∃ e, h'.Describes e := by
    obtain ⟨e, he⟩ := hd id h hh
    simp only [Prod.mk.injEq] at hsame
    obtain ⟨hmessage, htoken, hkey, hkind⟩ := hsame
    exact ⟨e, hmessage ▸ he.decodes, htoken.trans he.token, hkey.trans he.key,
      hkind.trans he.kind⟩
  cases hchange with
  | same =>
    obtain ⟨h, hh, hsame⟩ := Option.map_eq_some_iff.mp hsubject.symm
    simp only [Head.subject, Prod.mk.injEq] at hsame
    exact hkept hh (by simp [hsame])
  | created _ _ _ hm =>
    simp only [Head.subject, Option.some.injEq, Prod.mk.injEq] at hsubject
    obtain ⟨hmessage, htoken, hkey, hkind, -⟩ := hsubject
    exact ⟨_, hmessage ▸ hm, htoken, hkey, hkind⟩
  | waiterSet _ hh =>
    simp only [Head.subject, Option.some.injEq, Prod.mk.injEq] at hsubject
    exact hkept hh (by simp [hsubject])
  | abandoned => cases hsubject

theorem Broadcast.described {h : Head ω} {new : List Send} (hx : Broadcast id h x y new)
    (hd : Described x.broker) : Described y.broker := by
  intro id' h' hh'
  rw [hx.heads, Table.get?_erase] at hh'
  split at hh'
  · cases hh'
  · exact hd id' h' hh'

theorem described_perform (hb : x.broker.Coherent) (hd : Described x.broker) (op : Operation ω) :
    Described (x.perform t op).2.broker :=
  perform_induction (P := fun z => Described z.broker) hb op (fun he => he.described hb hd)
    fun _ _ hx hd => hx.described hd

end Exchange

end Arbiter
