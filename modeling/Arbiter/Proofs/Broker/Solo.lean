import Arbiter.Proofs.Broker.Dossier

/-!
A broker with one event. It knows its sessions and the dossier of the event, and what it does is
told without any other event: which operations are about the event is decided by the id of its head
and by its token, and all others but those on sessions leave it as it is.
-/

namespace Arbiter

def Message.eventToken? (m : Message) : Option UInt64 :=
  match m.decode with
  | .ok (.event e) => some e.token
  | _ => none

theorem Message.eventToken?_eq {m : Message} {e : Event} (hm : m.decode = .ok (.event e)) :
    m.eventToken? = some e.token := by
  rw [eventToken?, hm]

theorem Message.eventToken?_eq_some {m : Message} {token : UInt64} :
    m.eventToken? = some token ↔ ∃ e, m.decode = .ok (.event e) ∧ e.token = token := by
  constructor
  · intro h
    unfold eventToken? at h
    split at h
    · rename_i e hm
      exact ⟨e, hm, Option.some.inj h⟩
    · cases h
  · rintro ⟨e, hm, rfl⟩
    exact eventToken?_eq hm

namespace Operation

variable {ω : Type}

def eventToken? : Operation ω → Option UInt64
  | .createHead m _ => m.eventToken?
  | _ => none

def Issues (op : Operation ω) (issued id : HeadId) (token : UInt64) : Prop :=
  ∀ token', op.eventToken? = some token' → (token' = token ↔ issued = id)

def Spares (id : HeadId) (token : UInt64) : Operation ω → Prop
  | .createHead m _ => m.eventToken? ≠ some token
  | .setWaiter id' _ | .abandon id' | .dispatch _ id' | .dispatchAll id' | .broadcast id' => id' ≠ id
  | .answer _ token' _ _ => token' ≠ token
  | .openSession .. | .register .. | .unregister .. | .teardown _ => False

instance (id : HeadId) (token : UInt64) : (op : Operation ω) → Decidable (op.Spares id token)
  | .createHead .. | .setWaiter .. | .abandon _ | .dispatch .. | .dispatchAll _ | .broadcast _
  | .answer .. => instDecidableNot
  | .openSession .. | .register .. | .unregister .. | .teardown _ => instDecidableFalse

end Operation

structure Member where
  session : SessionId
  uid : UInt32
  channel : ChannelId
  registrations : List Filter

namespace Member

def interested (m : Member) (key : Filter) : Bool := m.registrations.any (·.selects key)

def MayRegister (m : Member) (f : Filter) : Prop := (Session.new m.uid m.channel 0).MayRegister f

instance (m : Member) (f : Filter) : Decidable (m.MayRegister f) :=
  inferInstanceAs (Decidable (Session.MayRegister _ _))

end Member

def Dossier.new {ω : Type} (m : Message) (e : Event) (waiter : Option ω) : Dossier ω :=
  ⟨m, e.token, e.key, if e.needsVerdict then .ask else .notify, waiter, none, none, 0, []⟩

structure Solo (ω : Type) where
  members : List Member
  dossier : Option (Dossier ω)
  resolved : Bool
  traffic : List (ChannelId × Message)
  told : List (Completion ω)

namespace Solo

variable {ω : Type}

def member? (c : Solo ω) (s : SessionId) : Option Member := c.members.find? (·.session = s)

def channel? (c : Solo ω) (s : SessionId) : Option ChannelId := (c.member? s).map Member.channel

def modifyMember (c : Solo ω) (s : SessionId) (f : Member → Member) : Solo ω :=
  { c with members := c.members.map fun m => if m.session = s then f m else m }

def register (c : Solo ω) (s : SessionId) (f : Filter) : Response × Solo ω :=
  match c.member? s with
  | none => (.refused (.unknownSession s), c)
  | some m =>
    if m.MayRegister f then
      (.done, c.modifyMember s fun m => { m with registrations := m.registrations ++ [f] })
    else (.refused (.permissionDenied m.uid f), c)

def unregister (c : Solo ω) (s : SessionId) (f : Filter) : Response × Solo ω :=
  match c.member? s with
  | none => (.refused (.unknownSession s), c)
  | some m =>
    if f ∈ m.registrations then
      (.done, c.modifyMember s fun m => { m with registrations := m.registrations.erase f })
    else (.refused (.noSuchRegistration f), c)

variable (id : HeadId) (token : UInt64)

def createHead (issued : HeadId) (c : Solo ω) (m : Message) (waiter : Option ω) :
    Response × Solo ω :=
  match m.decode with
  | .error fault => (.refused (.malformed fault), c)
  | .ok (.event e) =>
    (.created issued, if issued = id then { c with dossier := some (.new m e waiter) } else c)
  | .ok _ => (.refused (.notAnEvent (Opcode.nameOfCode (m.opcode?.getD 0))), c)

def setWaiter (c : Solo ω) (waiter : ω) : Response × Solo ω :=
  match c.dossier with
  | none => (.refused (.unknownHead id), c)
  | some d => (.done, { c with dossier := some { d with waiter := some waiter } })

def abandon (c : Solo ω) : Response × Solo ω :=
  match c.dossier with
  | none => (.refused (.unknownHead id), c)
  | some d =>
    if d.seats.isEmpty then (.abandoned d.message, { c with dossier := none })
    else (.refused (.headInUse id), c)

def dispatch (c : Solo ω) (s : SessionId) : Except Refusal Dispatch × Solo ω :=
  match c.member? s with
  | none => (.error (.unknownSession s), c)
  | some m =>
    match c.dossier with
    | none => (.error (.unknownHead id), c)
    | some d =>
      if !m.interested d.key then (.ok .notInterested, c)
      else
        let sent := { c with traffic := c.traffic ++ [(m.channel, d.message)] }
        match d.kind with
        | .notify => (.ok .sent, sent)
        | .ask =>
          if d.seated s then (.error (.duplicateToken d.token), c)
          else (.ok .queued, { sent with dossier := some (d.sit s) })

def tally (count : Nat) : Except Refusal Dispatch → Nat
  | .ok .notInterested | .error _ => count
  | .ok _ => count + 1

def offer (progress : Nat × Solo ω) (s : SessionId) : Nat × Solo ω :=
  let (result, c) := progress.2.dispatch id s
  (tally progress.1 result, c)

def dispatchAll (c : Solo ω) : Response × Solo ω :=
  if c.dossier.isSome then
    let (count, c) := (c.members.map Member.session).foldl (offer id) (0, c)
    (.delivered count, c)
  else (.refused (.unknownHead id), c)

def resolve (c : Solo ω) : Bool × Solo ω :=
  match c.dossier with
  | none => (false, c)
  | some d => (true, { c with
      dossier := none
      resolved := true
      traffic := c.traffic ++ d.results c.channel?
      told := c.told ++ d.completion id })

def answer (c : Solo ω) (s : SessionId) (verdict : Verdict) (delegate : Bool) :
    Option Response × Solo ω :=
  match c.member? s with
  | none => (some (.refused (.unknownSession s)), c)
  | some m =>
    match c.dossier with
    | none => (if c.resolved then none else some (.refused (.unknownToken token)), c)
    | some d =>
      if d.seated s then
        let recorded := { c with dossier := some (d.record s m.uid verdict) }
        if delegate && 0 < (d.record s m.uid verdict).live then
          (some (.answered .delegated), recorded)
        else (some (.answered .decided), (recorded.resolve id).2)
      else (some (.refused (.unknownToken token)), c)

theorem answer_of_seated {c : Solo ω} {s : SessionId} {m : Member} {d : Dossier ω}
    (hm : c.member? s = some m) (hd : c.dossier = some d) (hseated : d.seated s = true)
    (verdict : Verdict) (delegate : Bool) :
    c.answer id token s verdict delegate =
      let recorded := { c with dossier := some (d.record s m.uid verdict) }
      if delegate && 0 < (d.record s m.uid verdict).live then
        (some (.answered .delegated), recorded)
      else (some (.answered .decided), (recorded.resolve id).2) := by
  simp only [answer, hm, hd, hseated]
  rfl

def teardown (c : Solo ω) (s : SessionId) : Solo ω :=
  if (c.member? s).isSome then
    let left := { c with
      members := c.members.filter (·.session ≠ s)
      dossier := c.dossier.map (·.leave s) }
    if c.dossier.any fun d => d.seated s && (d.leave s).live = 0 then (left.resolve id).2 else left
  else c

def certain (result : Response × Solo ω) : Option Response × Solo ω := (some result.1, result.2)

/-- An operation, with the number that the broker issues next. No response is given where it is not
decided by the sessions and the event alone. -/
def perform (issued : Nat) (c : Solo ω) : Operation ω → Option Response × Solo ω
  | .openSession uid channel =>
    (some (.opened ⟨issued⟩), { c with members := c.members ++ [⟨⟨issued⟩, uid, channel, []⟩] })
  | .register s f => certain (c.register s f)
  | .unregister s f => certain (c.unregister s f)
  | .createHead m waiter => certain (c.createHead id ⟨issued⟩ m waiter)
  | .setWaiter id' waiter => if id' = id then certain (c.setWaiter id waiter) else (none, c)
  | .abandon id' => if id' = id then certain (c.abandon id) else (none, c)
  | .dispatch s id' =>
    if id' = id then certain ((c.dispatch id s).map (Exchange.respond .dispatched) fun c => c)
    else (none, c)
  | .dispatchAll id' => if id' = id then certain (c.dispatchAll id) else (none, c)
  | .answer s token' verdict delegate =>
    if token' = token then c.answer id token s verdict delegate else (none, c)
  | .broadcast id' =>
    if id' = id then certain ((c.resolve id).map .resolved fun c => c) else (none, c)
  | .teardown s => (none, c.teardown id s)

theorem resolved_of_uncertain {op : Operation ω} (hop : ¬op.Spares id token)
    (hteardown : ∀ s, op ≠ .teardown s) {issued : Nat} {c : Solo ω}
    (h : (c.perform id token issued op).1 = none) : c.resolved = true := by
  cases op with
  | answer s token' verdict delegate =>
    rw [perform, if_pos (not_not.mp hop)] at h
    unfold answer at h
    split at h
    · cases h
    · split at h
      · split at h
        · assumption
        · cases h
      · split at h
        · dsimp only at h
          split at h <;> cases h
        · cases h
  | teardown s => exact absurd rfl (hteardown s)
  | openSession | register | unregister | createHead => cases h
  | setWaiter | abandon | dispatch | dispatchAll | broadcast =>
    rw [perform, if_pos (not_not.mp hop)] at h
    cases h

theorem perform_of_spares {op : Operation ω} (hop : op.Spares id token) {issued : Nat}
    (hissued : op.Issues ⟨issued⟩ id token) (c : Solo ω) :
    (c.perform id token issued op).2 = c := by
  cases op with
  | createHead m waiter =>
    simp only [perform, certain, createHead]
    cases hm : m.decode with
    | error fault => rfl
    | ok content =>
      cases content with
      | event e =>
        have htoken := Message.eventToken?_eq hm
        exact if_neg fun hid => hop (htoken.trans (congrArg some ((hissued _ htoken).mpr hid)))
      | _ => rfl
  | setWaiter | abandon | dispatch | dispatchAll | answer | broadcast =>
    exact congrArg Prod.snd (if_neg hop)
  | openSession | register | unregister | teardown => exact hop.elim

end Solo

end Arbiter
