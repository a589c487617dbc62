import Arbiter.Proofs.Broker.Attendance

/-!
Who hears of what. The permission to register is asked for once, when a filter is registered; that
it confines all that is sent later needs the filters a session holds to have been permitted, each
of them, at every moment. So a session without privileges hears of its own user alone and nothing of
the status subsystem, and a privileged one hears of that subsystem only by the one registration
that names it.
-/

namespace Arbiter

def Filter.status : Filter := ⟨0, 0, statusSubsystem⟩

theorem Filter.subsystem_of_selects {f key : Filter} (h : f.selects key = true)
    (hkey : key.subsystem = statusSubsystem) : f.subsystem = statusSubsystem := by
  unfold selects at h
  rw [if_pos hkey] at h
  exact eq_of_beq h

theorem Filter.uid_of_selects {f key : Filter} (h : f.selects key = true)
    (hkey : key.subsystem ≠ statusSubsystem) : f.uid = 0 ∨ f.uid = key.uid := by
  unfold selects fieldMatches at h
  rw [if_neg hkey, Bool.and_eq_true, Bool.and_eq_true] at h
  have huid := h.1.1
  rw [Bool.or_eq_true, beq_iff_eq, beq_iff_eq] at huid
  exact huid

namespace Session

variable {sess sess' : Session} {f key : Filter}

def Permitted (sess : Session) : Prop := ∀ f ∈ sess.registrations, sess.MayRegister f

theorem MayRegister.own (h : sess.MayRegister f) (huid : sess.uid ≠ 0) :
    f.uid = sess.uid ∧ f.subsystem ≠ Filter.statusSubsystem := by
  unfold MayRegister at h
  split at h
  · exact absurd h.1 huid
  · rename_i hsubsystem
    exact ⟨h.resolve_left huid, hsubsystem⟩

theorem MayRegister.status (h : sess.MayRegister f)
    (hsubsystem : f.subsystem = Filter.statusSubsystem) : f = Filter.status := by
  unfold MayRegister at h
  rw [if_pos hsubsystem] at h
  obtain ⟨-, huid, hrule⟩ := h
  obtain ⟨uid, ruleId, subsystem⟩ := f
  simp only at hsubsystem huid hrule
  rw [hsubsystem, huid, hrule, Filter.status]

/-- What a session may hear: as an ordinary user what is its own, as root what it asked for. -/
structure Hears (sess : Session) (uid : UInt32) (key : Filter) : Prop where
  own : uid ≠ 0 → key.uid = uid ∧ key.subsystem ≠ Filter.statusSubsystem
  status : uid = 0 → key.subsystem = Filter.statusSubsystem → Filter.status ∈ sess.registrations

theorem Permitted.hears (hp : sess.Permitted) (hkey : sess.interested key = true) :
    sess.Hears sess.uid key := by
  obtain ⟨f, hf, hselects⟩ := List.any_eq_true.mp hkey
  constructor
  · intro huid
    obtain ⟨hown, hnot⟩ := (hp f hf).own huid
    have hsubsystem : key.subsystem ≠ Filter.statusSubsystem := fun h =>
      hnot (Filter.subsystem_of_selects hselects h)
    -- A wildcard would need a registration for the user zero, which is not this session's.
    rcases Filter.uid_of_selects hselects hsubsystem with hzero | hsame
    · exact absurd (hown.symm.trans hzero) huid
    · exact ⟨hsame.symm.trans hown, hsubsystem⟩
  · intro _ hsubsystem
    have hstatus := (hp f hf).status (Filter.subsystem_of_selects hselects hsubsystem)
    exact hstatus ▸ hf

theorem Permitted.of_profile (hp : sess.Permitted) (huid : sess'.uid = sess.uid)
    (hregs : ∀ f ∈ sess'.registrations, f ∈ sess.registrations ∨ sess.MayRegister f) :
    sess'.Permitted := by
  intro f hf
  have hmay : sess.MayRegister f := (hregs f hf).elim (hp f) id
  unfold MayRegister Privileged at hmay ⊢
  rwa [huid]

end Session

section Past

variable {ω σ : Type} {past : List (Step ω σ)} {s : SessionId}

def Step.user? (step : Step ω σ) (s : SessionId) : Option UInt32 :=
  match step.operation, step.response with
  | .openSession uid _, .opened id => if id = s then some uid else none
  | _, _ => none

theorem Step.user?_eq_none {step : Step ω σ}
    (h : ∀ uid channel, step.operation = .openSession uid channel → step.response ≠ .opened s) :
    step.user? s = none := by
  obtain ⟨before, operation, response, after⟩ := step
  unfold user?
  split
  · rename_i uid channel id hop hr
    refine if_neg ?_
    rintro rfl
    exact h uid channel hop hr
  · rfl

def userOf (past : List (Step ω σ)) (s : SessionId) : Option UInt32 := latest (·.user? s) past

/-- Every copy of an event sent in the step goes to a session that is open and may hear of it. -/
def Step.Confines (step : Step ω σ) (user : SessionId → Option UInt32) : Prop :=
  ∃ new, step.after.sends = step.before.sends ++ new ∧
    ∀ send ∈ new, ∀ s id, send.purpose = .event s id →
      ∃ sess uid e, step.before.broker.sessions.get? s = some sess ∧ user s = some uid ∧
        send.channel = sess.channel ∧ send.message.decode = .ok (.event e) ∧
        sess.Hears uid e.key

theorem Step.Confines.mono {step : Step ω σ} {user user' : SessionId → Option UInt32}
    (h : step.Confines user) (hmono : ∀ s uid, user s = some uid → user' s = some uid) :
    step.Confines user' := by
  obtain ⟨new, hnew, hsends⟩ := h
  refine ⟨new, hnew, fun send hs s id hpurpose => ?_⟩
  obtain ⟨sess, uid, e, hsess, huser, hrest⟩ := hsends send hs s id hpurpose
  exact ⟨sess, uid, e, hsess, hmono s uid huser, hrest⟩

/-- The registrations of every open session are for its own user and none of them for the status
subsystem, unless it was opened for root. -/
def Broker.Confines (b : Broker ω) (user : SessionId → Option UInt32) : Prop :=
  ∀ s sess, b.sessions.get? s = some sess → ∃ uid, user s = some uid ∧
    (uid ≠ 0 → ∀ f ∈ sess.registrations, f.uid = uid ∧ f.subsystem ≠ Filter.statusSubsystem)

theorem Broker.Confines.mono {b : Broker ω} {user user' : SessionId → Option UInt32}
    (h : b.Confines user) (hmono : ∀ s uid, user s = some uid → user' s = some uid) :
    b.Confines user' := by
  intro s sess hs
  obtain ⟨uid, huser, hregs⟩ := h s sess hs
  exact ⟨uid, hmono s uid huser, hregs⟩

end Past

theorem isSome_userOf (past : List (Step ω σ)) (s : SessionId) :
    (userOf past s).isSome = (channelOf past s).isSome := by
  induction past using List.reverseRecOn with
  | nil => rfl
  | append_singleton past step ih =>
    have hstep : (step.user? s).isSome = (step.opened? s).isSome := by
      unfold Step.user? Step.opened?
      cases hop : step.operation with
      | openSession uid channel =>
        cases hr : step.response with
        | opened id =>
          simp only
          split <;> rfl
        | _ => rfl
      | _ => rfl
    rw [userOf, channelOf, latest_snoc, latest_snoc, Option.isSome_or, Option.isSome_or, hstep]
    exact congrArg _ ih

namespace Exchange

variable {ω σ : Type} {t : Transport σ} {past : List (Step ω σ)} {x y : Exchange ω σ}

/-- What the broker knows of sessions and heads is what they were opened and created with. -/
structure Guarded (past : List (Step ω σ)) (x : Exchange ω σ) : Prop where
  coherent : x.broker.Coherent
  roll : Roll past x
  user {s sess} : x.broker.sessions.get? s = some sess → userOf past s = some sess.uid
  permitted {s sess} : x.broker.sessions.get? s = some sess → sess.Permitted
  described : Described x.broker

theorem guarded_start (capacity : Nat) (transport : σ) :
    Guarded [] (start (.new capacity : Broker ω) transport) where
  coherent := Broker.coherent_new capacity
  roll := roll_start capacity transport
  user hs := by cases hs
  permitted hs := by cases hs
  described id h hh := by cases hh

theorem Guarded.confines (hg : Guarded past x) : x.broker.Confines (userOf past) := by
  intro s sess hs
  exact ⟨sess.uid, hg.user hs, fun huid f hf => (hg.permitted hs f hf).own huid⟩

def Confined (x : Exchange ω σ) (new : List Send) : Prop :=
  ∀ send ∈ new, ∀ s id, send.purpose = .event s id →
    ∃ sess e, x.broker.sessions.get? s = some sess ∧ send.channel = sess.channel ∧
      send.message.decode = .ok (.event e) ∧ sess.Hears sess.uid e.key

theorem Confined.append {new new' : List Send} (h : Confined x new) (h' : Confined x new') :
    Confined x (new ++ new') := by
  intro send hs
  exact (List.mem_append.mp hs).elim (h send) (h' send)

theorem Guarded.offers_confined (hg : Guarded past x) {id : HeadId}
    (h : Relation.ReflTransGen (Offer t id) x y) :
    ∃ new, y.sends = x.sends ++ new ∧ Confined x new := by
  induction h with
  | refl => exact ⟨[], (List.append_nil _).symm, fun send hs => absurd hs List.not_mem_nil⟩
  | @tail y z hy hoffer ih =>
    obtain ⟨new, hnew, hconfined⟩ := ih
    cases hoffer with
    | @sent s sess' h' hs' hh' hkey =>
      refine ⟨new ++ [_], by rw [send_sends, hnew, List.append_assoc], hconfined.append ?_⟩
      intro send hsend s₁ id₁ hpurpose
      obtain rfl := List.mem_singleton.mp hsend
      obtain ⟨rfl, rfl⟩ := Purpose.event.inj hpurpose
      have hprofile := offers_profile hy s
      rw [hs', Option.map_some, eq_comm, Option.map_eq_some_iff] at hprofile
      obtain ⟨sess, hs, hprofile⟩ := hprofile
      have hsubject := offers_subject hy id
      rw [hh', Option.map_some, eq_comm, Option.map_eq_some_iff] at hsubject
      obtain ⟨h, hh, hsubject⟩ := hsubject
      simp only [Session.profile, Prod.mk.injEq] at hprofile
      simp only [Head.subject, Prod.mk.injEq] at hsubject
      obtain ⟨e, he⟩ := hg.described id h hh
      have hinterested : sess.interested e.key = true := by
        unfold Session.interested at hkey ⊢
        rwa [hprofile.2.2, ← he.key, hsubject.2.2.1]
      refine ⟨sess, e, hs, hprofile.2.1.symm, ?_, (hg.permitted hs).hears hinterested⟩
      rw [← hsubject.1, he.decodes]
    | queued => exact ⟨new, hnew, hconfined⟩
    | lost => exact ⟨new, hnew, hconfined⟩

theorem Broadcast.confined {id : HeadId} {h : Head ω} {z : Exchange ω σ} {new : List Send}
    (hx : Broadcast id h y z new) : Confined x new := by
  intro send hs s id' hpurpose
  obtain ⟨p, -, htells⟩ := exists_left_of_mem_right hx.told hs
  cases htells.purpose.symm.trans hpurpose

theorem Effect.confined {op : Operation ω} {r : Response} {ids : List HeadId}
    (he : Effect t x op r y ids) (hg : Guarded past x) :
    ∃ new, y.sends = x.sends ++ new ∧ Confined x new := by
  have hnone : ∃ new, x.sends = x.sends ++ new ∧ Confined x new :=
    ⟨[], (List.append_nil _).symm, fun send hs => absurd hs List.not_mem_nil⟩
  cases he with
  | offered r hop hy => exact hg.offers_confined hy
  | _ => exact hnone

theorem Guarded.perform_session (hg : Guarded past x) (op : Operation ω) {s : SessionId}
    {sess' : Session} (hs' : (x.perform t op).2.broker.sessions.get? s = some sess') :
    userOf (past ++ [x.step t op]) s = some sess'.uid ∧ sess'.Permitted := by
  have hchange := perform_profile (t := t) hg.coherent op s
  rw [hs', Option.map_some] at hchange
  have huser : userOf (past ++ [x.step t op]) s =
      (Step.user? ⟨x, op, (x.perform t op).1, (x.perform t op).2⟩ s).or (userOf past s) :=
    latest_snoc ..
  rw [huser]
  generalize (x.perform t op).1 = r at hchange
  generalize hprofile : some sess'.profile = profile at hchange
  cases hchange with
  | same hopen =>
    rw [eq_comm, Option.map_eq_some_iff] at hprofile
    obtain ⟨sess, hs, hsame⟩ := hprofile
    simp only [Session.profile, Prod.mk.injEq] at hsame
    rw [Step.user?_eq_none hopen, Option.none_or, hg.user hs, hsame.1]
    refine ⟨rfl, (hg.permitted hs).of_profile hsame.1.symm fun f hf => .inl ?_⟩
    rwa [hsame.2.2]
  | @opened uid channel hop hr hs =>
    simp only [Session.profile, Option.some.injEq, Prod.mk.injEq] at hprofile
    subst hop hr
    have hopened : Step.user? ⟨x, .openSession uid channel, .opened s,
      (x.perform t (.openSession uid channel)).2⟩ s = some uid := if_pos rfl
    rw [hopened, Option.some_or, hprofile.1]
    refine ⟨rfl, fun f hf => ?_⟩
    rw [hprofile.2.2] at hf
    cases hf
  | registered hop hs hregs =>
    simp only [Session.profile, Option.some.injEq, Prod.mk.injEq] at hprofile
    have hnone : Step.user? ⟨x, op, r, (x.perform t op).2⟩ s = none := by
      refine Step.user?_eq_none fun uid channel hopen => ?_
      rcases hop with ⟨g, rfl | rfl⟩ <;> cases hopen
    rw [hnone, Option.none_or, hg.user hs, hprofile.1]
    refine ⟨rfl, (hg.permitted hs).of_profile hprofile.1 fun f hf => hregs f ?_⟩
    rwa [hprofile.2.2] at hf
  | tornDown => cases hprofile

theorem Guarded.perform (hg : Guarded past x) (op : Operation ω) :
    Guarded (past ++ [x.step t op]) (x.perform t op).2 where
  coherent := coherent_perform hg.coherent op
  roll := roll_perform hg.coherent hg.roll op
  user hs := (hg.perform_session op hs).1
  permitted hs := (hg.perform_session op hs).2
  described := described_perform hg.coherent hg.described op

theorem Guarded.userOf_snoc (hg : Guarded past x) (op : Operation ω) {s : SessionId}
    {uid : UInt32} (huser : userOf past s = some uid) :
    userOf (past ++ [x.step t op]) s = some uid := by
  have hissued : (channelOf past s).isSome := by
    rw [← isSome_userOf, huser]
    rfl
  obtain ⟨channel, hchannel⟩ := Option.isSome_iff_exists.mp hissued
  have hlt := hg.roll.fresh hchannel
  refine (latest_snoc_of_none (Step.user?_eq_none fun uid channel hop hr => ?_)).trans huser
  obtain rfl : op = .openSession uid channel := hop
  obtain rfl : ⟨x.broker.nextId⟩ = s := Response.opened.inj hr
  exact Nat.lt_irrefl _ hlt

theorem Guarded.step_confines (hg : Guarded past x) (op : Operation ω) :
    (x.step t op).Confines (userOf past) := by
  obtain ⟨new, hnew, hconfined⟩ := perform_induction (t := t)
    (P := fun z => ∃ new, z.sends = x.sends ++ new ∧ Confined x new) hg.coherent op
    (fun he => he.confined hg) fun _ _ hx hz => by
      obtain ⟨new, hnew, hconfined⟩ := hz
      refine ⟨new ++ _, ?_, hconfined.append hx.confined⟩
      rw [hx.sends, hnew, List.append_assoc]
  refine ⟨new, hnew, fun send hs s id hpurpose => ?_⟩
  obtain ⟨sess, e, hsess, hchannel, hdecode, hhears⟩ := hconfined send hs s id hpurpose
  exact ⟨sess, sess.uid, e, hsess, hg.user hsess, hchannel, hdecode, hhears⟩

/-- Whatever is asked of a new broker: no session ever holds a registration that it may not make,
and every copy of an event sent by a dispatch goes to a session that may hear of it. -/
theorem confinement_run (t : Transport σ) (capacity : Nat) (transport : σ)
    (ops : List (Operation ω)) :
    let past := history t (start (.new capacity) transport) ops
    ∀ step ∈ past, step.Confines (userOf past) ∧ step.after.broker.Confines (userOf past) := by
  suffices h : Guarded (history t (start (.new capacity) transport) ops)
      (run t (start (.new capacity) transport) ops).2 ∧
      ∀ step ∈ history t (start (.new capacity) transport) ops,
        step.Confines (userOf (history t (start (.new capacity) transport) ops)) ∧
        step.after.broker.Confines
          (userOf (history t (start (.new capacity) transport) ops)) from h.2
  refine run_induction (I := fun past x => Guarded past x ∧
    ∀ step ∈ past, step.Confines (userOf past) ∧ step.after.broker.Confines (userOf past))
    ⟨guarded_start capacity transport, fun step hs => absurd hs List.not_mem_nil⟩ ?_ ops
  rintro past x op ⟨hg, hpast⟩
  have hmono (s : SessionId) (uid : UInt32) (h : userOf past s = some uid) :
      userOf (past ++ [x.step t op]) s = some uid := hg.userOf_snoc op h
  refine ⟨hg.perform op, fun step hs => ?_⟩
  rcases List.mem_append.mp hs with hs | hs
  · obtain ⟨hsends, hregs⟩ := hpast step hs
    exact ⟨hsends.mono hmono, hregs.mono hmono⟩
  · obtain rfl := List.mem_singleton.mp hs
    exact ⟨(hg.step_confines op).mono hmono, (hg.perform op).confines⟩

end Exchange

end Arbiter
