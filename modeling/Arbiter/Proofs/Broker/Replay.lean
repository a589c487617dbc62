import Mathlib.Data.List.Nodup
import Arbiter.Proofs.Broker.Continuity
import Arbiter.Proofs.Broker.Docket
import Arbiter.Proofs.Broker.History
import Arbiter.Proofs.Broker.Renaming

/-!
Steps done again from another state. The ids in them are those of the first run, so they are renamed
as the second run issues ids of its own; a session or a head that the first run did not issue stays
one that the second did not. The renaming is extended by a swap with each number that is issued.
-/

namespace Arbiter

def Response.issued? : Response → Option Nat
  | .opened s => some s.number
  | .created id => some id.number
  | _ => none

/-- The second step is the first with its ids renamed, with those that it issues. -/
structure Step.Named {ω σ : Type} (ρ : Renaming) (step step' : Step ω σ) : Prop where
  operation : step'.operation = step.operation.rename ρ
  issued {n} : step.response.issued? = some n → step'.response = step.response.rename ρ

namespace Operation

variable {ω : Type}

def session? : Operation ω → Option SessionId
  | .register s _ | .unregister s _ | .dispatch s _ | .answer s _ _ _ | .teardown s => some s
  | _ => none

def head? : Operation ω → Option HeadId
  | .setWaiter id _ | .abandon id | .dispatch _ id | .dispatchAll id | .broadcast id => some id
  | _ => none

theorem session?_rename (ρ : Renaming) (op : Operation ω) :
    (op.rename ρ).session? = op.session?.map ρ.session := by
  cases op <;> rfl

theorem head?_rename (ρ : Renaming) (op : Operation ω) :
    (op.rename ρ).head? = op.head?.map ρ.head := by
  cases op <;> rfl

theorem issues_rename (ρ : Renaming) (op : Operation ω) : (op.rename ρ).issues = op.issues := by
  cases op <;> rfl

theorem rename_congr {ρ ρ' : Renaming} {op : Operation ω}
    (hsession : ∀ s, op.session? = some s → ρ'.session s = ρ.session s)
    (hhead : ∀ id, op.head? = some id → ρ'.head id = ρ.head id) :
    op.rename ρ' = op.rename ρ := by
  cases op <;> simp_all [rename, session?, head?]

end Operation

namespace Exchange

variable {ω σ : Type} {t : Transport σ} {x y : Exchange ω σ} {op : Operation ω} {ρ ρ' : Renaming}

theorem issued?_respond {α : Type} {ok : α → Response} (hok : ∀ a, (ok a).issued? = none)
    (result : Except Refusal α) : (respond ok result).issued? = none := by
  cases result with
  | ok a => exact hok a
  | error e => rfl

theorem issued?_perform (t : Transport σ) (x : Exchange ω σ) (op : Operation ω) :
    (x.perform t op).1.issued? = if op.issues then some x.broker.nextId else none := by
  cases op with
  | openSession => rfl
  | createHead m waiter =>
    cases hm : m.decode with
    | error fault =>
      simp only [perform, Broker.createHead, Operation.issues, Message.eventToken?, hm]
      rfl
    | ok content =>
      cases content <;>
      · simp only [perform, Broker.createHead, Operation.issues, Message.eventToken?, hm]
        rfl
  | register s f =>
    simp only [perform, update, Operation.issues]
    cases x.broker.register s f <;> rfl
  | unregister s f =>
    simp only [perform, update, Operation.issues]
    cases x.broker.unregister s f <;> rfl
  | setWaiter id waiter =>
    simp only [perform, update, Operation.issues]
    cases x.broker.setWaiter id waiter <;> rfl
  | abandon id =>
    simp only [perform, update, Operation.issues]
    cases x.broker.abandon id <;> rfl
  | dispatch | dispatchAll | answer | teardown => exact issued?_respond (fun _ => rfl) _
  | broadcast => rfl

theorem perform_issues (hop : op.issues = true)
    (hρ : ρ.number x.broker.nextId = y.broker.nextId) :
    (y.perform t (op.rename ρ)).1 = (x.perform t op).1.rename ρ := by
  cases op with
  | openSession uid channel =>
    exact congrArg (fun n => Response.opened ⟨n⟩) hρ.symm
  | createHead m waiter =>
    cases hm : m.decode with
    | error fault => simp [Operation.issues, Message.eventToken?, hm] at hop
    | ok content =>
      cases content with
      | event e =>
        simp only [Operation.rename, perform, Broker.createHead, hm, update]
        exact congrArg (fun n => Response.created ⟨n⟩) hρ.symm
      | _ => simp [Operation.issues, Message.eventToken?, hm] at hop
  | _ => cases hop

theorem nextId_perform_of_issues (hop : op.issues = true) :
    (x.perform t op).2.broker.nextId = x.broker.nextId + 1 := by
  cases op with
  | openSession uid channel => rfl
  | createHead m waiter =>
    cases hm : m.decode with
    | error fault => simp [Operation.issues, Message.eventToken?, hm] at hop
    | ok content =>
      cases content with
      | event e =>
        simp only [perform, Broker.createHead, hm, update]
        rfl
      | _ => simp [Operation.issues, Message.eventToken?, hm] at hop
  | _ => cases hop

theorem session_of_perform (hb : x.broker.Coherent) {s : SessionId} {sess' : Session}
    (hs' : (x.perform t op).2.broker.sessions.get? s = some sess') :
    (∃ sess, x.broker.sessions.get? s = some sess) ∨
      (x.perform t op).1.issued? = some s.number := by
  have hchange := perform_profile (t := t) hb op s
  rw [hs', Option.map_some] at hchange
  generalize hprofile : some sess'.profile = profile at hchange
  cases hchange with
  | same =>
    obtain ⟨sess, hs, -⟩ := Option.map_eq_some_iff.mp hprofile.symm
    exact .inl ⟨sess, hs⟩
  | opened _ hr => exact .inr (by rw [hr]; rfl)
  | registered _ hs => exact .inl ⟨_, hs⟩
  | tornDown => cases hprofile

theorem head_of_perform (hb : x.broker.Coherent) {id : HeadId} {h' : Head ω}
    (hh' : (x.perform t op).2.broker.heads.get? id = some h') :
    (∃ h, x.broker.heads.get? id = some h) ∨ (x.perform t op).1.issued? = some id.number := by
  refine perform_induction (P := fun z => ∀ {h'}, z.broker.heads.get? id = some h' →
    (∃ h, x.broker.heads.get? id = some h) ∨ (x.perform t op).1.issued? = some id.number)
    hb op ?_ ?_ hh'
  · intro y ids he h' hh'
    have hchange := he.subject hb id
    rw [hh', Option.map_some] at hchange
    generalize hsubject : some h'.subject = subject at hchange
    cases hchange with
    | same =>
      obtain ⟨h, hh, -⟩ := Option.map_eq_some_iff.mp hsubject.symm
      exact .inl ⟨h, hh⟩
    | created _ hr => exact .inr (by rw [hr]; rfl)
    | waiterSet _ hh => exact .inl ⟨_, hh⟩
    | abandoned => cases hsubject
  · intro id' h y z new _ _ hx hy h' hh'
    rw [hx.heads, Table.get?_erase] at hh'
    split at hh'
    · cases hh'
    · exact hy hh'

theorem perform_of_closed {s : SessionId} (hs : x.broker.sessions.get? s = none)
    (hop : op.session? = some s) : (x.perform t op).2 = x := by
  cases op with
  | register s' f | unregister s' f | dispatch s' id | answer s' token verdict delegate
  | teardown s' =>
    obtain rfl : s' = s := Option.some.inj hop
    simp [perform, Broker.register, Broker.unregister, update, dispatch, answer, teardown, hs]
  | _ => cases hop

theorem perform_of_absent {id : HeadId} (hh : x.broker.heads.get? id = none)
    (hop : op.head? = some id) : (x.perform t op).2 = x := by
  cases op with
  | setWaiter id' waiter | abandon id' | dispatchAll id' | broadcast id' =>
    obtain rfl : id' = id := Option.some.inj hop
    simp [perform, Broker.setWaiter, Broker.abandon, update, dispatchAll, broadcast,
      Table.contains, hh]
  | dispatch s id' =>
    obtain rfl : id' = id := Option.some.inj hop
    simp only [perform, dispatch, hh]
    cases x.broker.sessions.get? s <;> rfl
  | _ => cases hop

/-- All sessions and heads bear numbers issued so far, renamed. -/
structure Covers (ρ : Renaming) (issued : List Nat) (y : Exchange ω σ) : Prop where
  coherent : y.broker.Coherent
  fresh {n} : n ∈ issued → ρ.number n < y.broker.nextId
  session {s sess} : y.broker.sessions.get? (ρ.session s) = some sess → s.number ∈ issued
  head {id h} : y.broker.heads.get? (ρ.head id) = some h → id.number ∈ issued

theorem covers_start (ρ : Renaming) (capacity : Nat) (transport : σ) :
    Covers ρ [] (start (.new capacity : Broker ω) transport) where
  coherent := Broker.coherent_new capacity
  fresh h := absurd h List.not_mem_nil
  session h := by cases h
  head h := by cases h

namespace Covers

variable {issued : List Nat}

theorem congr (hc : Covers ρ issued y)
    (hsame : ∀ n ∈ issued, ρ'.number n = ρ.number n) : Covers ρ' issued y := by
  -- What `ρ'` maps to a number of the state, `ρ` maps there from an issued one: it is the same.
  have hback (n : Nat) (h : ρ.number.symm (ρ'.number n) ∈ issued) : n ∈ issued := by
    have hsame := hsame _ h
    rw [Equiv.apply_symm_apply, ρ'.number.injective.eq_iff] at hsame
    exact hsame ▸ h
  have hcross (n : Nat) : ρ.number (ρ.number.symm (ρ'.number n)) = ρ'.number n :=
    Equiv.apply_symm_apply ..
  refine ⟨hc.coherent, fun h => hsame _ h ▸ hc.fresh h, fun {s sess} hs => hback _ ?_,
    fun {id h} hh => hback _ ?_⟩
  · rw [Renaming.session, ← hcross] at hs
    exact hc.session hs
  · rw [Renaming.head, ← hcross] at hh
    exact hc.head hh

theorem perform_congr (hc : Covers ρ issued y)
    (hsame : ∀ n ∈ issued, ρ'.number n = ρ.number n) (op : Operation ω) :
    (y.perform t (op.rename ρ')).2 = (y.perform t (op.rename ρ)).2 := by
  have hc' := hc.congr hsame
  by_cases hclosed : ∃ s, op.session? = some s ∧ s.number ∉ issued
  · obtain ⟨s, hop, hs⟩ := hclosed
    have hidle {ρ : Renaming} (hc : Covers ρ issued y) : (y.perform t (op.rename ρ)).2 = y := by
      have hclosed : y.broker.sessions.get? (ρ.session s) = none :=
        Option.eq_none_iff_forall_ne_some.mpr fun _ h => hs (hc.session h)
      exact perform_of_closed hclosed (by rw [Operation.session?_rename, hop]; rfl)
    rw [hidle hc', hidle hc]
  by_cases habsent : ∃ id, op.head? = some id ∧ id.number ∉ issued
  · obtain ⟨id, hop, hid⟩ := habsent
    have hidle {ρ : Renaming} (hc : Covers ρ issued y) : (y.perform t (op.rename ρ)).2 = y := by
      have habsent : y.broker.heads.get? (ρ.head id) = none :=
        Option.eq_none_iff_forall_ne_some.mpr fun _ h => hid (hc.head h)
      exact perform_of_absent habsent (by rw [Operation.head?_rename, hop]; rfl)
    rw [hidle hc', hidle hc]
  have hop : op.rename ρ' = op.rename ρ := by
    refine Operation.rename_congr (fun s hop => ?_) fun id hop => ?_
    · exact congrArg SessionId.mk (hsame _ (by_contra fun hs => hclosed ⟨s, hop, hs⟩))
    · exact congrArg HeadId.mk (hsame _ (by_contra fun hid => habsent ⟨id, hop, hid⟩))
  rw [hop]

theorem perform (hc : Covers ρ issued y) {op : Operation ω} {new : List Nat}
    (hnew : ∀ n, (y.perform t op).1.issued? = some n ↔ ∃ m ∈ new, ρ.number m = n) :
    Covers ρ (issued ++ new) (y.perform t op).2 where
  coherent := coherent_perform hc.coherent op
  fresh {n} hn := by
    rcases List.mem_append.mp hn with hn | hn
    · exact Nat.lt_of_lt_of_le (hc.fresh hn) (nextId_perform hc.coherent op)
    · have hissued := (hnew _).mpr ⟨n, hn, rfl⟩
      rw [issued?_perform] at hissued
      split at hissued
      · rename_i hop
        rw [nextId_perform_of_issues hop, ← Option.some.inj hissued]
        exact Nat.lt_succ_self _
      · cases hissued
  session {s sess} hs := by
    rw [List.mem_append]
    rcases session_of_perform hc.coherent hs with ⟨_, hs⟩ | hissued
    · exact .inl (hc.session hs)
    · obtain ⟨m, hm, hsame⟩ := (hnew _).mp hissued
      exact .inr (ρ.number.injective hsame ▸ hm)
  head {id h} hh := by
    rw [List.mem_append]
    rcases head_of_perform hc.coherent hh with ⟨_, hh⟩ | hissued
    · exact .inl (hc.head hh)
    · obtain ⟨m, hm, hsame⟩ := (hnew _).mp hissued
      exact .inr (ρ.number.injective hsame ▸ hm)

end Covers

theorem Covers.exists_swap {issued : List Nat} (hc : Covers ρ issued y) {n : Nat}
    (hn : n ∉ issued) : ∃ ρ' : Renaming, (∀ m ∈ issued, ρ'.number m = ρ.number m) ∧
      ρ'.number n = y.broker.nextId := by
  refine ⟨⟨ρ.number.trans (Equiv.swap (ρ.number n) y.broker.nextId)⟩, fun m hm => ?_, ?_⟩
  · refine Equiv.swap_apply_of_ne_of_ne (fun h => hn ?_) (Nat.ne_of_lt (hc.fresh hm))
    exact ρ.number.injective h ▸ hm
  · exact Equiv.swap_apply_left ..

theorem Covers.exists_named {issued : List Nat} (hc : Covers ρ issued y) {step : Step ω σ}
    (hstep : step.response = (step.before.perform t step.operation).1)
    (hfresh : ∀ n, step.response.issued? = some n → n ∉ issued) :
    ∃ ρ₁ : Renaming, (∀ n ∈ issued, ρ₁.number n = ρ.number n) ∧
      Covers ρ₁ (issued ++ step.response.issued?.toList)
        (y.perform t (step.operation.rename ρ₁)).2 ∧
      ∀ ρ' : Renaming, (∀ n ∈ issued ++ step.response.issued?.toList, ρ'.number n = ρ₁.number n) →
        step.Named ρ' (y.step t (step.operation.rename ρ')) ∧
        (y.perform t (step.operation.rename ρ')).2 =
          (y.perform t (step.operation.rename ρ₁)).2 := by
  -- The next step can be done again. Any renaming that agrees on the numbers issued until then, the
  -- step's own among them, makes of it the same step.
  have hissued := issued?_perform t step.before step.operation
  rw [← hstep] at hissued
  obtain ⟨ρ₁, hsame, hnext⟩ : ∃ ρ₁ : Renaming, (∀ m ∈ issued, ρ₁.number m = ρ.number m) ∧
      ∀ n, step.response.issued? = some n → ρ₁.number n = y.broker.nextId := by
    cases hn : step.response.issued? with
    | none => exact ⟨ρ, fun _ _ => rfl, nofun⟩
    | some n =>
      obtain ⟨ρ₁, hsame, hnext⟩ := hc.exists_swap (hfresh n hn)
      exact ⟨ρ₁, hsame, fun m hm => Option.some.inj hm ▸ hnext⟩
  have hc₁ := hc.congr hsame
  have hnew (k : Nat) : (y.perform t (step.operation.rename ρ₁)).1.issued? = some k ↔
      ∃ m ∈ step.response.issued?.toList, ρ₁.number m = k := by
    rw [issued?_perform, Operation.issues_rename]
    split at hissued
    · rename_i hop
      simp [hop, hissued, hnext _ hissued]
    · rename_i hop
      simp [hop, hissued]
  refine ⟨ρ₁, hsame, hc₁.perform hnew, fun ρ' hsame' => ⟨⟨rfl, fun {n} hn => ?_⟩, ?_⟩⟩
  · have hρ' : ρ'.number n = y.broker.nextId := by
      rw [hsame' n (List.mem_append_right _ (Option.mem_toList.mpr hn)), hnext n hn]
    rw [hn] at hissued
    split at hissued
    · rename_i hop
      rw [hstep]
      exact perform_issues hop (Option.some.inj hissued ▸ hρ')
    · cases hissued
  · exact hc₁.perform_congr (fun n hn => hsame' n (List.mem_append_left _ hn)) step.operation

theorem exists_renaming {kept : List (Step ω σ)}
    (hkept : ∀ step ∈ kept, step.response = (step.before.perform t step.operation).1)
    {issued : List Nat} (hnodup : (issued ++ kept.filterMap (·.response.issued?)).Nodup)
    (hc : Covers ρ issued y) : ∃ ρ', (∀ n ∈ issued, ρ'.number n = ρ.number n) ∧
      List.Forall₂ (Step.Named ρ') kept (history t y (kept.map (·.operation.rename ρ'))) := by
  induction kept generalizing issued ρ y with
  | nil => exact ⟨ρ, fun _ _ => rfl, .nil⟩
  | cons step rest ih =>
    have hrest : ∀ step ∈ rest, step.response = (step.before.perform t step.operation).1 :=
      fun step hstep => hkept step (List.mem_cons_of_mem _ hstep)
    have hfresh (n : Nat) (hn : step.response.issued? = some n) : n ∉ issued := fun hmem =>
      List.disjoint_of_nodup_append hnodup hmem <|
        List.mem_filterMap.mpr ⟨step, List.mem_cons_self .., hn⟩
    have hnodup' : ((issued ++ step.response.issued?.toList) ++
        rest.filterMap (·.response.issued?)).Nodup := by
      rw [List.append_assoc]
      rw [List.filterMap_cons] at hnodup
      cases hn : step.response.issued? <;> simpa [hn] using hnodup
    obtain ⟨ρ₁, hsame₁, hc₁, hstep⟩ := hc.exists_named (hkept step (List.mem_cons_self ..)) hfresh
    obtain ⟨ρ', hsame', hsteps⟩ := ih hrest hnodup' hc₁
    obtain ⟨hnamed, hafter⟩ := hstep ρ' hsame'
    refine ⟨ρ', fun n hn => ?_, .cons hnamed ?_⟩
    · rw [hsame' n (List.mem_append_left _ hn), hsame₁ n hn]
    · rw [← hafter] at hsteps
      exact hsteps

end Exchange

end Arbiter
