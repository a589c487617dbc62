import Arbiter.Proofs.Broker.Continuity
import Arbiter.Proofs.Broker.Docket

/-!
What a history says of each session. One that was opened keeps the channel it was opened with and is
there until it is torn down; then it is gone for good.
-/

namespace Arbiter

section Past

variable {ω σ : Type} {past : List (Step ω σ)} {s : SessionId}

def Torn (past : List (Step ω σ)) (s : SessionId) : Prop := ∃ step ∈ past, step.TearsDown s

structure Step.Steady (step : Step ω σ) (s : SessionId) : Prop where
  opened : step.opened? s = none
  torn : ¬step.TearsDown s

def Operation.concernsSessions : Operation ω → Bool
  | .openSession .. | .teardown _ => true
  | _ => false

theorem Step.not_tearsDown {step : Step ω σ} (h : step.operation ≠ .teardown s) :
    ¬step.TearsDown s :=
  fun ht => h ht.1

theorem Step.steady_of_operation {step : Step ω σ} (h : step.operation.concernsSessions = false)
    (s : SessionId) : step.Steady s := by
  obtain ⟨before, operation, response, after⟩ := step
  cases operation with
  | openSession | teardown => simp [Operation.concernsSessions] at h
  | _ => exact ⟨rfl, not_tearsDown (by simp)⟩

theorem Step.steady_of_refused {step : Step ω σ} {cause : Refusal}
    (h : step.response = .refused cause) (s : SessionId) : step.Steady s := by
  obtain ⟨before, operation, response, after⟩ := step
  obtain rfl : response = .refused cause := h
  cases operation <;> exact ⟨rfl, by simp [TearsDown]⟩

theorem torn_snoc {step : Step ω σ} :
    Torn (past ++ [step]) s ↔ Torn past s ∨ step.TearsDown s := by
  simp [Torn, or_and_right, exists_or]

end Past

namespace Exchange

variable {ω σ : Type} {past past' : List (Step ω σ)} {x y : Exchange ω σ} {s : SessionId}

inductive Attendance (past : List (Step ω σ)) (x : Exchange ω σ) (s : SessionId) : Prop where
  | unissued (hs : x.broker.sessions.get? s = none) (hchannel : channelOf past s = none)
      (htorn : ¬Torn past s)
  | attending {sess} (hs : x.broker.sessions.get? s = some sess)
      (hchannel : channelOf past s = some sess.channel) (htorn : ¬Torn past s)
  | departed {channel} (hs : x.broker.sessions.get? s = none)
      (hchannel : channelOf past s = some channel) (htorn : Torn past s)

theorem Attendance.congr (ha : Attendance past x s)
    (hchannel : channelOf past' s = channelOf past s) (htorn : Torn past' s ↔ Torn past s)
    (hsessions : (y.broker.sessions.get? s).map Session.channel =
      (x.broker.sessions.get? s).map Session.channel) : Attendance past' y s := by
  have hnone (hs : x.broker.sessions.get? s = none) : y.broker.sessions.get? s = none := by
    rwa [hs, Option.map_none, Option.map_eq_none_iff] at hsessions
  cases ha with
  | unissued hs hchannel' htorn' =>
    exact .unissued (hnone hs) (hchannel.trans hchannel') (mt htorn.mp htorn')
  | attending hs hchannel' htorn' =>
    rw [hs, Option.map_some, Option.map_eq_some_iff] at hsessions
    obtain ⟨sess', hs', hsame⟩ := hsessions
    exact .attending hs' (hsame ▸ hchannel.trans hchannel') (mt htorn.mp htorn')
  | departed hs hchannel' htorn' =>
    exact .departed (hnone hs) (hchannel.trans hchannel') (htorn.mpr htorn')

theorem Attendance.of_session {sess : Session} (ha : Attendance past x s)
    (hs : x.broker.sessions.get? s = some sess) :
    channelOf past s = some sess.channel ∧ ¬Torn past s := by
  cases ha with
  | attending hs' hchannel htorn =>
    rw [hs] at hs'
    cases hs'
    exact ⟨hchannel, htorn⟩
  | unissued hs' | departed hs' => simp [hs] at hs'

theorem Attendance.absent_of_torn (ha : Attendance past x s) (htorn : Torn past s) :
    x.broker.sessions.get? s = none := by
  cases ha with
  | departed hs => exact hs
  | unissued _ _ hnot | attending _ _ hnot => exact absurd htorn hnot

theorem Attendance.session_of_issued (ha : Attendance past x s)
    (hchannel : channelOf past s ≠ none) (htorn : ¬Torn past s) :
    ∃ sess, x.broker.sessions.get? s = some sess := by
  cases ha with
  | attending hs => exact ⟨_, hs⟩
  | unissued _ hnone => exact absurd hnone hchannel
  | departed _ _ htorn' => exact absurd htorn' htorn

structure Roll (past : List (Step ω σ)) (x : Exchange ω σ) : Prop where
  attendance (s : SessionId) : Attendance past x s
  fresh {s : SessionId} {channel : ChannelId} : channelOf past s = some channel →
    s.number < x.broker.nextId

theorem roll_start (capacity : Nat) (transport : σ) :
    Roll [] (start (.new capacity : Broker ω) transport) where
  attendance _ := .unissued rfl rfl (by simp [Torn])
  fresh h := by cases h

theorem Roll.steady {step : Step ω σ} (hr : Roll past x) (hsteady : ∀ s, step.Steady s)
    (hsessions : ∀ s, (y.broker.sessions.get? s).map Session.channel =
      (x.broker.sessions.get? s).map Session.channel)
    (hnext : x.broker.nextId ≤ y.broker.nextId) : Roll (past ++ [step]) y where
  attendance s := (hr.attendance s).congr (latest_snoc_of_none (hsteady s).opened)
    (by rw [torn_snoc, or_iff_left (hsteady s).torn]) (hsessions s)
  fresh {s channel} hchannel := by
    rw [channelOf, latest_snoc_of_none (hsteady s).opened] at hchannel
    exact Nat.lt_of_lt_of_le (hr.fresh hchannel) hnext

theorem roll_opened (hr : Roll past x) (uid : UInt32) (channel : ChannelId) (z : Exchange ω σ) :
    Roll (past ++ [⟨x, .openSession uid channel, .opened ⟨x.broker.nextId⟩, z⟩])
      (x.withBroker (x.broker.openSession uid channel).2) where
  attendance s := by
    have hsession : (x.broker.openSession uid channel).2.sessions.get? s =
        if s = ⟨x.broker.nextId⟩ then some (.new uid channel x.broker.settledCapacity)
        else x.broker.sessions.get? s := Table.get?_insert ..
    by_cases hs : s = ⟨x.broker.nextId⟩
    · rw [if_pos hs] at hsession
      have hchannel : channelOf (past ++
          [⟨x, .openSession uid channel, .opened ⟨x.broker.nextId⟩, z⟩]) s = some channel :=
        latest_snoc_of_some (if_pos hs.symm)
      refine .attending hsession hchannel ?_
      rw [torn_snoc, not_or]
      refine ⟨fun htorn => ?_, Step.not_tearsDown (by simp)⟩
      -- The id is new, so no session of that id was ever torn down.
      cases hr.attendance s with
      | unissued _ _ hnot | attending _ _ hnot => exact hnot htorn
      | departed _ hchannel => exact absurd (hr.fresh hchannel) (by simp [hs])
    · rw [if_neg hs] at hsession
      refine (hr.attendance s).congr (latest_snoc_of_none (if_neg fun h => hs h.symm)) ?_
        (congrArg _ hsession)
      rw [torn_snoc, or_iff_left (Step.not_tearsDown (by simp))]
  fresh {s channel'} hchannel := by
    by_cases hs : s = ⟨x.broker.nextId⟩
    · rw [hs]
      exact Nat.lt_succ_self _
    · have hold := (latest_snoc_of_none (if_neg fun h => hs h.symm)).symm.trans hchannel
      exact Nat.lt_succ_of_lt (hr.fresh hold)

theorem roll_tornDown (hr : Roll past x) {sess : Session} {b : Broker ω} {ready : List HeadId}
    (hs : x.broker.sessions.get? s = some sess) (hc : Closed s x.broker b ready)
    (report : Teardown) (z : Exchange ω σ) :
    Roll (past ++ [⟨x, .teardown s, .tornDown report, z⟩]) (x.withBroker b) where
  attendance s' := by
    have hsession : b.sessions.get? s' = if s' = s then none else x.broker.sessions.get? s' := by
      rw [hc.sessions, Table.get?_erase]
    by_cases hss : s' = s
    · subst s'
      rw [if_pos rfl] at hsession
      have hchannel := ((hr.attendance s).of_session hs).1
      exact .departed hsession ((latest_snoc_of_none rfl).trans hchannel)
        (torn_snoc.mpr (.inr ⟨rfl, report, rfl⟩))
    · rw [if_neg hss] at hsession
      refine (hr.attendance s').congr (latest_snoc_of_none rfl) ?_ (congrArg _ hsession)
      rw [torn_snoc, or_iff_left]
      exact fun h => hss (Operation.teardown.inj h.1).symm
  fresh {s' channel} hchannel := by
    rw [channelOf, latest_snoc_of_none rfl] at hchannel
    exact Nat.lt_of_lt_of_le (hr.fresh hchannel) (Nat.le_of_eq hc.nextId.symm)

theorem channel_congr (h : (y.broker.sessions.get? s).map Session.profile =
    (x.broker.sessions.get? s).map Session.profile) :
    (y.broker.sessions.get? s).map Session.channel =
      (x.broker.sessions.get? s).map Session.channel := by
  have hchannel := congrArg (Option.map fun p => p.2.1) h
  rwa [Option.map_map, Option.map_map] at hchannel

theorem Effect.roll {t : Transport σ} {op : Operation ω} {r : Response} {ids : List HeadId}
    (he : Effect t x op r y ids) (hb : x.broker.Coherent) (hr : Roll past x) (z : Exchange ω σ) :
    Roll (past ++ [⟨x, op, r, z⟩]) y := by
  have hnext := (he.quiet hb).nextId
  cases he with
  | refused => exact hr.steady (Step.steady_of_refused rfl) (fun _ => rfl) hnext
  | opened uid channel => exact roll_opened hr uid channel z
  | registered hop =>
    refine hr.steady (Step.steady_of_operation ?_) (fun s => ?_) hnext
    · rcases hop with ⟨_, rfl | rfl⟩ <;> rfl
    · exact Table.map_get?_modify _ _ _ fun _ => rfl
  | offered r hop hy =>
    rcases hop with rfl | ⟨s, rfl⟩ <;>
      exact hr.steady (Step.steady_of_operation rfl)
        (fun s => channel_congr (offers_profile hy s)) hnext
  | tornDown hs => exact roll_tornDown hr hs (closing_spec hb hs).1 _ z
  | _ => exact hr.steady (Step.steady_of_operation rfl) (fun _ => rfl) hnext

theorem Broadcast.roll {id : HeadId} {h : Head ω} {new : List Send} (hx : Broadcast id h x y new)
    (hr : Roll past x) : Roll past y where
  attendance s := by
    exact (hr.attendance s).congr rfl .rfl (channel_congr (hx.profile s))
  fresh hchannel := hx.nextId ▸ hr.fresh hchannel

theorem roll_perform {t : Transport σ} (hb : x.broker.Coherent) (hr : Roll past x)
    (op : Operation ω) : Roll (past ++ [x.step t op]) (x.perform t op).2 :=
  perform_induction (P := fun z => Roll (past ++ [x.step t op]) z) hb op
    (fun he => he.roll hb hr _) fun _ _ hx hr => hx.roll hr

end Exchange

end Arbiter
