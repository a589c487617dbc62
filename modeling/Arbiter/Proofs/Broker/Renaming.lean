import Mathlib.Logic.Equiv.Basic
import Arbiter.Proofs.Broker.Solo

/-!
Other ids for the same sessions and heads. A broker with one event does not look at the ids that it
is given: renamed, it does the same and says the same, renamed.
-/

namespace Arbiter

/-- Sessions and heads take their numbers from one counter, so one permutation of the numbers
renames both. -/
structure Renaming where
  number : Equiv.Perm Nat

namespace Renaming

variable (ρ : Renaming)

def session (s : SessionId) : SessionId := ⟨ρ.number s.number⟩

def head (id : HeadId) : HeadId := ⟨ρ.number id.number⟩

@[simp] theorem session_inj {s s' : SessionId} : ρ.session s = ρ.session s' ↔ s = s' := by
  cases s
  cases s'
  simp [session]

@[simp] theorem head_inj {id id' : HeadId} : ρ.head id = ρ.head id' ↔ id = id' := by
  cases id
  cases id'
  simp [head]

end Renaming

variable {ω : Type} (ρ : Renaming)

def Operation.rename : Operation ω → Operation ω
  | .openSession uid channel => .openSession uid channel
  | .register s f => .register (ρ.session s) f
  | .unregister s f => .unregister (ρ.session s) f
  | .createHead m waiter => .createHead m waiter
  | .setWaiter id waiter => .setWaiter (ρ.head id) waiter
  | .abandon id => .abandon (ρ.head id)
  | .dispatch s id => .dispatch (ρ.session s) (ρ.head id)
  | .dispatchAll id => .dispatchAll (ρ.head id)
  | .answer s token verdict delegate => .answer (ρ.session s) token verdict delegate
  | .broadcast id => .broadcast (ρ.head id)
  | .teardown s => .teardown (ρ.session s)

def Operation.issues : Operation ω → Bool
  | .openSession .. => true
  | .createHead m _ => m.eventToken?.isSome
  | _ => false

def Refusal.rename : Refusal → Refusal
  | .unknownSession s => .unknownSession (ρ.session s)
  | .unknownHead id => .unknownHead (ρ.head id)
  | .headInUse id => .headInUse (ρ.head id)
  | cause => cause

def Response.rename : Response → Response
  | .opened s => .opened (ρ.session s)
  | .created id => .created (ρ.head id)
  | .refused cause => .refused (cause.rename ρ)
  | r => r

def Completion.rename (c : Completion ω) : Completion ω := { c with head := ρ.head c.head }

def Member.rename (m : Member) : Member := { m with session := ρ.session m.session }

def Seat.rename (seat : Seat) : Seat := { seat with session := ρ.session seat.session }

def Dossier.rename (d : Dossier ω) : Dossier ω := { d with seats := d.seats.map (Seat.rename ρ) }

def Solo.rename (c : Solo ω) : Solo ω :=
  { c with
    members := c.members.map (Member.rename ρ)
    dossier := c.dossier.map (Dossier.rename ρ)
    told := c.told.map (Completion.rename ρ) }

namespace Dossier

variable {ρ} (d : Dossier ω) (s : SessionId)

@[simp] theorem seated_rename : (d.rename ρ).seated (ρ.session s) = d.seated s := by
  simp [seated, rename, List.any_map, Function.comp_def, Seat.rename]

@[simp] theorem answered_rename : (d.rename ρ).answered (ρ.session s) = d.answered s := by
  simp [answered, rename, List.any_map, Function.comp_def, Seat.rename]

@[simp] theorem live_rename : (d.rename ρ).live = d.live := rfl

theorem sit_rename : (d.rename ρ).sit (ρ.session s) = (d.sit s).rename ρ := by
  simp [sit, rename, Seat.rename]

theorem record_rename (uid : UInt32) (verdict : Verdict) :
    (d.rename ρ).record (ρ.session s) uid verdict = (d.record s uid verdict).rename ρ := by
  have hseats (seat : Seat) : (if (seat.rename ρ).session = ρ.session s then
      ⟨ρ.session s, true, true⟩ else { seat.rename ρ with decides := false } : Seat) =
      (if seat.session = s then ⟨s, true, true⟩ else { seat with decides := false } : Seat).rename
        ρ := by
    by_cases hs : seat.session = s <;> simp [Seat.rename, hs]
  rw [record, answered_rename, record, rename, rename, List.map_map, List.map_map]
  exact congrArg _ (List.map_congr_left fun seat _ => hseats seat)

theorem leave_rename : (d.rename ρ).leave (ρ.session s) = (d.leave s).rename ρ := by
  have hseats : (d.rename ρ).seats.filter (·.session ≠ ρ.session s) =
      (d.seats.filter (·.session ≠ s)).map (Seat.rename ρ) := by
    simp [rename, List.filter_map, Function.comp_def, Seat.rename]
  simp only [leave, seated_rename, answered_rename, hseats]
  split
  · split <;> rfl
  · rfl

theorem results_rename {channel? channel?' : SessionId → Option ChannelId}
    (h : ∀ s, channel?' (ρ.session s) = channel? s) :
    (d.rename ρ).results channel?' = d.results channel? := by
  rw [results, rename, List.filterMap_map, results]
  refine List.filterMap_congr fun seat _ => ?_
  rw [Function.comp_apply, Seat.rename, h]
  rfl

theorem completion_rename (id : HeadId) :
    (d.rename ρ).completion (ρ.head id) = (d.completion id).map (Completion.rename ρ) := by
  simp [completion, rename, Completion.rename, outcome]

end Dossier

namespace Solo

variable {ρ} (c : Solo ω) (s : SessionId) (id : HeadId) (token : UInt64)

def renamed {α : Type} (f : α → α) (ρ : Renaming) (result : α × Solo ω) : α × Solo ω :=
  (f result.1, result.2.rename ρ)

@[simp] theorem dossier_rename : (c.rename ρ).dossier = c.dossier.map (.rename ρ) := rfl

theorem member?_rename : (c.rename ρ).member? (ρ.session s) = (c.member? s).map (.rename ρ) := by
  have hnamed : ((·.session = ρ.session s : Member → Bool) ∘ Member.rename ρ) =
      fun m => decide (m.session = s) := by
    funext m
    simp [Member.rename]
  rw [member?, rename, List.find?_map, hnamed, member?]

theorem channel?_rename : (c.rename ρ).channel? (ρ.session s) = c.channel? s := by
  rw [channel?, member?_rename, Option.map_map, channel?]
  rfl

theorem modifyMember_rename {f : Member → Member}
    (hf : ∀ m, f (m.rename ρ) = (f m).rename ρ) :
    (c.rename ρ).modifyMember (ρ.session s) f = (c.modifyMember s f).rename ρ := by
  simp only [modifyMember, rename, List.map_map]
  congr 1
  refine List.map_congr_left fun m _ => ?_
  have hsession : (m.rename ρ).session = ρ.session s ↔ m.session = s := ρ.session_inj
  simp only [Function.comp_apply, hsession]
  split
  · exact hf m
  · rfl

theorem register_rename (f : Filter) : (c.rename ρ).register (ρ.session s) f =
    renamed (·.rename ρ) ρ (c.register s f) := by
  simp only [register, member?_rename]
  cases c.member? s with
  | none => rfl
  | some m =>
    simp only [Option.map_some, show (m.rename ρ).MayRegister f ↔ m.MayRegister f from .rfl]
    split
    · exact congrArg _ (modifyMember_rename c s fun _ => rfl)
    · rfl

theorem unregister_rename (f : Filter) : (c.rename ρ).unregister (ρ.session s) f =
    renamed (·.rename ρ) ρ (c.unregister s f) := by
  simp only [unregister, member?_rename]
  cases c.member? s with
  | none => rfl
  | some m =>
    simp only [Option.map_some, show (m.rename ρ).registrations = m.registrations from rfl]
    split
    · exact congrArg _ (modifyMember_rename c s fun _ => rfl)
    · rfl

theorem createHead_rename (issued : HeadId) (m : Message) (waiter : Option ω) :
    (c.rename ρ).createHead (ρ.head id) (ρ.head issued) m waiter =
      renamed (·.rename ρ) ρ (c.createHead id issued m waiter) := by
  simp only [createHead]
  split
  · rfl
  · simp only [ρ.head_inj]
    split <;> rfl
  · rfl

theorem setWaiter_rename (waiter : ω) : (c.rename ρ).setWaiter (ρ.head id) waiter =
    renamed (·.rename ρ) ρ (c.setWaiter id waiter) := by
  obtain ⟨members, dossier, resolved, traffic, told⟩ := c
  cases dossier <;> rfl

theorem abandon_rename :
    (c.rename ρ).abandon (ρ.head id) = renamed (·.rename ρ) ρ (c.abandon id) := by
  simp only [abandon, dossier_rename]
  cases c.dossier with
  | none => rfl
  | some d =>
    simp only [Option.map_some, show (d.rename ρ).seats.isEmpty = d.seats.isEmpty from
      List.isEmpty_map]
    split <;> rfl

theorem dispatch_rename : (c.rename ρ).dispatch (ρ.head id) (ρ.session s) =
    renamed (Except.mapError (.rename ρ)) ρ (c.dispatch id s) := by
  simp only [dispatch, member?_rename, dossier_rename]
  cases c.member? s with
  | none => rfl
  | some m =>
    cases hd : c.dossier with
    | none => rfl
    | some d =>
      simp only [Option.map_some, Dossier.seated_rename, Dossier.sit_rename,
        show (m.rename ρ).interested (d.rename ρ).key = m.interested d.key from rfl,
        show (d.rename ρ).kind = d.kind from rfl]
      split
      · rfl
      · split
        · rfl
        · split <;> rfl

theorem offer_rename (progress : Nat × Solo ω) :
    offer (ρ.head id) (renamed (fun n => n) ρ progress) (ρ.session s) =
      renamed (fun n => n) ρ (offer id progress s) := by
  simp only [offer, renamed, dispatch_rename]
  rcases (progress.2.dispatch id s).1 with e | d <;> rfl

theorem dispatchAll_rename :
    (c.rename ρ).dispatchAll (ρ.head id) = renamed (·.rename ρ) ρ (c.dispatchAll id) := by
  have hfold (ss : List SessionId) (progress : Nat × Solo ω) :
      (ss.map ρ.session).foldl (offer (ρ.head id)) (renamed (fun n => n) ρ progress) =
        renamed (fun n => n) ρ (ss.foldl (offer id) progress) := by
    induction ss generalizing progress with
    | nil => rfl
    | cons s ss ih => rw [List.map_cons, List.foldl_cons, List.foldl_cons, offer_rename, ih]
  have hmembers : (c.rename ρ).members.map Member.session =
      (c.members.map Member.session).map ρ.session := by
    rw [rename, List.map_map, List.map_map]
    rfl
  simp only [dispatchAll, dossier_rename, Option.isSome_map]
  split
  · rw [hmembers, show (0, c.rename ρ) = renamed (fun n => n) ρ (0, c) from rfl, hfold]
    rfl
  · rfl

theorem resolve_rename :
    (c.rename ρ).resolve (ρ.head id) = renamed (fun b => b) ρ (c.resolve id) := by
  simp only [resolve, dossier_rename]
  cases hd : c.dossier with
  | none => rfl
  | some d =>
    simp only [Option.map_some, d.results_rename (channel?_rename (ρ := ρ) c),
      Dossier.completion_rename]
    simp only [renamed, rename, List.map_append]
    rfl

theorem answer_rename (verdict : Verdict) (delegate : Bool) :
    (c.rename ρ).answer (ρ.head id) token (ρ.session s) verdict delegate =
      renamed (Option.map (.rename ρ)) ρ (c.answer id token s verdict delegate) := by
  simp only [answer, member?_rename, dossier_rename]
  cases c.member? s with
  | none => rfl
  | some m =>
    cases hd : c.dossier with
    | none =>
      simp only [Option.map_some, Option.map_none, show (c.rename ρ).resolved = c.resolved from rfl]
      split <;> rfl
    | some d =>
      simp only [Option.map_some, Dossier.seated_rename, show (m.rename ρ).uid = m.uid from rfl,
        Dossier.record_rename, Dossier.live_rename]
      have hresolved := congrArg Prod.snd <|
        resolve_rename (ρ := ρ) { c with dossier := some (d.record s m.uid verdict) } id
      split
      · split
        · rfl
        · exact Prod.ext rfl hresolved
      · rfl

theorem teardown_rename :
    (c.rename ρ).teardown (ρ.head id) (ρ.session s) = (c.teardown id s).rename ρ := by
  have hmembers : (c.rename ρ).members.filter (·.session ≠ ρ.session s) =
      (c.members.filter (·.session ≠ s)).map (.rename ρ) := by
    simp [rename, List.filter_map, Function.comp_def, Member.rename]
  have hdossier : (c.dossier.map (Dossier.rename ρ)).map (·.leave (ρ.session s)) =
      (c.dossier.map (·.leave s)).map (.rename ρ) := by
    rw [Option.map_map, Option.map_map]
    exact congrArg (c.dossier.map ·) (funext fun d => d.leave_rename s)
  have hlast : (c.dossier.map (Dossier.rename ρ)).any (fun d => d.seated (ρ.session s) &&
      (d.leave (ρ.session s)).live = 0) =
        c.dossier.any fun d => d.seated s && (d.leave s).live = 0 := by
    cases c.dossier with
    | none => rfl
    | some d =>
      simp only [Option.map_some, Option.any_some, Dossier.seated_rename, Dossier.leave_rename,
        Dossier.live_rename]
  have hresolved := resolve_rename (ρ := ρ) { c with
    members := c.members.filter (·.session ≠ s)
    dossier := c.dossier.map (·.leave s) } id
  simp only [teardown, member?_rename, Option.isSome_map, dossier_rename, hmembers, hdossier,
    hlast]
  split
  · split
    · exact congrArg Prod.snd hresolved
    · rfl
  · rfl

theorem perform_rename {op : Operation ω} {issued issued' : Nat}
    (hissued : op.issues = true → ρ.number issued = issued') :
    (c.rename ρ).perform (ρ.head id) token issued' (op.rename ρ) =
      renamed (Option.map (.rename ρ)) ρ (c.perform id token issued op) := by
  have hids (id' : HeadId) : (ρ.head id' = ρ.head id) = (id' = id) :=
    propext ρ.head_inj
  cases op with
  | openSession uid channel =>
    simp only [perform, Operation.rename, ← hissued rfl, renamed, rename, List.map_append]
    rfl
  | register s f => exact congrArg certain (register_rename c s f)
  | unregister s f => exact congrArg certain (unregister_rename c s f)
  | createHead m waiter =>
    refine congrArg certain (Eq.trans ?_ (createHead_rename c id ⟨issued⟩ m waiter))
    simp only [createHead]
    cases hm : m.decode with
    | error fault => rfl
    | ok content =>
      cases content with
      | event e =>
        have htoken := Message.eventToken?_eq hm
        rw [← hissued (by rw [Operation.issues, htoken]; rfl)]
        rfl
      | _ => rfl
  | setWaiter id' waiter =>
    simp only [perform, Operation.rename, hids, setWaiter_rename]
    split <;> rfl
  | abandon id' =>
    simp only [perform, Operation.rename, hids, abandon_rename]
    split <;> rfl
  | dispatch s id' =>
    simp only [perform, Operation.rename, hids, dispatch_rename]
    split
    · rcases c.dispatch id s with ⟨e | d, c'⟩ <;> rfl
    · rfl
  | dispatchAll id' =>
    simp only [perform, Operation.rename, hids, dispatchAll_rename]
    split <;> rfl
  | answer s token' verdict delegate =>
    simp only [perform, Operation.rename, answer_rename]
    split <;> rfl
  | broadcast id' =>
    simp only [perform, Operation.rename, hids, resolve_rename]
    split <;> rfl
  | teardown s => exact congrArg (Prod.mk none) (teardown_rename c s id)

end Solo

end Arbiter
