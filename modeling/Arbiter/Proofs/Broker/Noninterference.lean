import Arbiter.Proofs.Broker.Projection
import Arbiter.Proofs.Broker.Replay

/-!
Events do not interfere with one another. Of a run over a transport that accepts everything, in
which every event has its own token, operations on other events can be left out: what is done to one
event, and said of it, stays the same but for the ids.
-/

namespace Arbiter

/-- What is left of a list when some elements of a kind are deleted. -/
inductive Thinned {α : Type} (spared : α → Prop) : List α → List α → Prop
  | nil : Thinned spared [] []
  | keep {as bs : List α} (a : α) (h : Thinned spared as bs) : Thinned spared (a :: as) (a :: bs)
  | drop {as bs : List α} {a : α} (ha : spared a) (h : Thinned spared as bs) :
    Thinned spared (a :: as) bs

theorem thinned_filter {α : Type} {spared : α → Prop} [DecidablePred spared] (l : List α) :
    Thinned spared l (l.filter (¬spared ·)) := by
  induction l with
  | nil => exact .nil
  | cons a l ih =>
    by_cases ha : spared a
    · rw [List.filter_cons_of_neg (by simpa using ha)]
      exact .drop ha ih
    · rw [List.filter_cons_of_pos (by simpa using ha)]
      exact .keep a ih

theorem Thinned.sublist {α : Type} {spared : α → Prop} {as bs : List α}
    (h : Thinned spared as bs) : bs.Sublist as := by
  induction h with
  | nil => exact .slnil
  | keep a _ ih => exact ih.cons_cons a
  | drop _ _ ih => exact ih.cons _

theorem eq_of_nodup_filterMap {α β : Type} {f : α → Option β} {l : List α}
    (h : (l.filterMap f).Nodup) {a a' : α} {b : β} (ha : a ∈ l) (ha' : a' ∈ l) (hb : f a = some b)
    (hb' : f a' = some b) : a = a' := by
  induction l with
  | nil => cases ha
  | cons c l ih =>
    rw [List.filterMap_cons] at h
    rcases List.mem_cons.mp ha with rfl | hmem <;> rcases List.mem_cons.mp ha' with rfl | hmem'
    · rfl
    · rw [hb] at h
      exact absurd (List.mem_filterMap.mpr ⟨a', hmem', hb'⟩) (List.nodup_cons.mp h).1
    · rw [hb'] at h
      exact absurd (List.mem_filterMap.mpr ⟨a, hmem, hb⟩) (List.nodup_cons.mp h).1
    · refine ih ?_ hmem hmem'
      split at h
      · exact h
      · exact h.of_cons

/-- The same step for one event, but for the ids. An answer to it that comes after it was resolved
may get either of two responses. -/
structure Step.Alike {ω σ : Type} (ρ : Renaming) (id : HeadId) (token : UInt64)
    (step step' : Step ω σ) : Prop where
  named : step.Named ρ step'
  response : ¬step.operation.Spares id token → (∀ s, step.operation ≠ .teardown s) →
    step'.response = step.response.rename ρ ∨
      id ∈ step.before.resolved ∧ step.response.Late token ∧ step'.response.Late token
  traffic : step'.after.traffic (ρ.head id) = step.after.traffic id
  told : step'.after.told (ρ.head id) = (step.after.told id).map (Completion.rename ρ)

namespace Exchange

variable {ω σ : Type} {t : Transport σ} {x y : Exchange ω σ} {id : HeadId} {token : UInt64}
  {ρ : Renaming} {op : Operation ω} {ops : List (Operation ω)} {kept : List (Step ω σ)}

theorem issued_history (hb : x.broker.Coherent) (ops : List (Operation ω)) :
    ((history t x ops).filterMap (·.response.issued?)).Nodup ∧
      ∀ n ∈ (history t x ops).filterMap (·.response.issued?), x.broker.nextId ≤ n := by
  induction ops generalizing x with
  | nil => exact ⟨List.nodup_nil, fun _ h => by cases h⟩
  | cons op ops ih =>
    obtain ⟨hnodup, hge⟩ := ih (coherent_perform (t := t) hb op)
    have hissued : (x.step t op).response.issued? = _ := issued?_perform t x op
    rw [history, List.filterMap_cons, hissued]
    by_cases hop : op.issues = true
    · rw [nextId_perform_of_issues hop] at hge
      simp only [hop, ↓reduceIte]
      refine ⟨List.nodup_cons.mpr ⟨fun hmem => ?_, hnodup⟩, fun n hn => ?_⟩
      · exact Nat.not_succ_le_self _ (hge _ hmem)
      · rcases List.mem_cons.mp hn with rfl | hn
        · exact Nat.le_refl _
        · exact Nat.le_of_succ_le (hge n hn)
    · simp only [hop]
      exact ⟨hnodup, fun n hn => Nat.le_trans (nextId_perform hb op) (hge n hn)⟩

theorem issued?_rename (r : Response) : (r.rename ρ).issued? = r.issued?.map ρ.number := by
  cases r <;> rfl

theorem number_of_named (h : (x.step t op).Named ρ (y.step t (op.rename ρ))) (hop : op.issues = true) :
    ρ.number x.broker.nextId = y.broker.nextId := by
  have hissued : (x.step t op).response.issued? = some x.broker.nextId :=
    (issued?_perform t x op).trans (if_pos hop)
  have hissued' : (y.step t (op.rename ρ)).response.issued? = some y.broker.nextId :=
    (issued?_perform t y _).trans (if_pos ((op.issues_rename ρ).trans hop))
  rw [h.issued hissued, issued?_rename, hissued] at hissued'
  exact Option.some.inj hissued'

theorem eventToken?_rename (ρ : Renaming) (op : Operation ω) :
    (op.rename ρ).eventToken? = op.eventToken? := by
  cases op <;> rfl

theorem issues_of_eventToken? (h : op.eventToken? = some token) : op.issues = true := by
  cases op with
  | createHead m waiter => exact congrArg Option.isSome h
  | _ => cases h

theorem rename_issues {issued issued' : Nat} (h : op.Issues ⟨issued⟩ id token)
    (hissued : op.issues = true → ρ.number issued = issued') :
    (op.rename ρ).Issues ⟨issued'⟩ (ρ.head id) token := by
  intro token' htoken
  rw [eventToken?_rename] at htoken
  rw [h _ htoken, ← hissued (issues_of_eventToken? htoken)]
  exact ρ.head_inj.symm

theorem spares_rename : (op.rename ρ).Spares (ρ.head id) token ↔ op.Spares id token := by
  cases op <;> simp [Operation.rename, Operation.Spares]

structure Twins (ρ : Renaming) (id : HeadId) (token : UInt64) (x y : Exchange ω σ) : Prop where
  left : Secluded id token x
  right : Secluded (ρ.head id) token y
  solo : y.solo (ρ.head id) = (x.solo id).rename ρ

namespace Twins

theorem traffic (h : Twins ρ id token x y) : y.traffic (ρ.head id) = x.traffic id :=
  congrArg Solo.traffic h.solo

theorem told (h : Twins ρ id token x y) :
    y.told (ρ.head id) = (x.told id).map (Completion.rename ρ) :=
  congrArg Solo.told h.solo

theorem drop (ht : t.Accepts) (h : Twins ρ id token x y)
    (hissues : op.Issues ⟨x.broker.nextId⟩ id token) (hop : op.Spares id token) :
    Twins ρ id token (x.perform t op).2 y :=
  ⟨h.left.perform ht op hissues, h.right,
    h.solo.trans (congrArg _ (solo_perform_of_spares ht h.left hissues hop).symm)⟩

theorem keep (ht : t.Accepts) (h : Twins ρ id token x y)
    (hissues : op.Issues ⟨x.broker.nextId⟩ id token)
    (hnumber : op.issues = true → ρ.number x.broker.nextId = y.broker.nextId) :
    Twins ρ id token (x.perform t op).2 (y.perform t (op.rename ρ)).2 := by
  have hissues' := rename_issues hissues hnumber
  refine ⟨h.left.perform ht op hissues, h.right.perform ht _ hissues', ?_⟩
  rw [solo_perform ht h.right _ hissues', h.solo, Solo.perform_rename _ _ _ hnumber,
    solo_perform ht h.left op hissues]
  rfl

theorem response (ht : t.Accepts) (h : Twins ρ id token x y)
    (hnumber : op.issues = true → ρ.number x.broker.nextId = y.broker.nextId)
    (hop : ¬op.Spares id token) (hteardown : ∀ s, op ≠ .teardown s) :
    (y.perform t (op.rename ρ)).1 = (x.perform t op).1.rename ρ ∨
      id ∈ x.resolved ∧ (x.perform t op).1.Late token ∧ (y.perform t (op.rename ρ)).1.Late token := by
  have hx := agrees_perform ht h.left hop hteardown
  have hteardown' (s) : op.rename ρ ≠ .teardown s := by
    cases op with
    | teardown s' => exact absurd rfl (hteardown s')
    | _ => exact nofun
  have hy := agrees_perform ht h.right (mt spares_rename.mp hop) hteardown'
  rw [h.solo, Solo.perform_rename _ _ _ hnumber] at hy
  cases hr : ((x.solo id).perform id token x.broker.nextId op).1 with
  | some r =>
    refine .inl ?_
    rw [hx.certain hr]
    exact hy.certain (congrArg (Option.map (Response.rename ρ)) hr)
  | none =>
    refine .inr ⟨?_, hx.late hr, hy.late (congrArg (Option.map (Response.rename ρ)) hr)⟩
    exact of_decide_eq_true (Solo.resolved_of_uncertain id token hop hteardown hr)

end Twins

theorem alike_of_twins (ht : t.Accepts) (h : Twins ρ id token x y)
    (hissues : op.Issues ⟨x.broker.nextId⟩ id token)
    (hnamed : (x.step t op).Named ρ (y.step t (op.rename ρ))) :
    (x.step t op).Alike ρ id token (y.step t (op.rename ρ)) ∧
      Twins ρ id token (x.perform t op).2 (y.perform t (op.rename ρ)).2 := by
  have hkept := h.keep ht hissues (number_of_named hnamed)
  exact ⟨⟨hnamed, h.response ht (number_of_named hnamed), hkept.traffic, hkept.told⟩, hkept⟩

/-- What happened to one event in two runs is the same but for the ids. -/
structure Undisturbed (ρ : Renaming) (id : HeadId) (token : UInt64) (kept rerun : List (Step ω σ))
    (x y : Exchange ω σ) : Prop where
  steps : List.Forall₂ (Step.Alike ρ id token) kept rerun
  traffic : y.traffic (ρ.head id) = x.traffic id
  told : y.told (ρ.head id) = (x.told id).map (Completion.rename ρ)

theorem undisturbed_of_twins (ht : t.Accepts) (h : Twins ρ id token x y)
    (hissues : ∀ step ∈ history t x ops,
      step.operation.Issues ⟨step.before.broker.nextId⟩ id token)
    (hkept : Thinned (·.operation.Spares id token) (history t x ops) kept)
    (hnamed : List.Forall₂ (Step.Named ρ) kept
      (history t y (kept.map (·.operation.rename ρ)))) :
    Undisturbed ρ id token kept (history t y (kept.map (·.operation.rename ρ)))
      (run t x ops).2 (run t y (kept.map (·.operation.rename ρ))).2 := by
  induction ops generalizing x y kept with
  | nil =>
    cases hkept
    exact ⟨.nil, h.traffic, h.told⟩
  | cons op ops ih =>
    have hfirst := hissues _ (List.mem_cons_self ..)
    have hrest := fun step hstep => hissues step (List.mem_cons_of_mem _ hstep)
    cases hkept with
    | keep _ hkept =>
      cases hnamed with
      | cons hstep hnamed =>
        obtain ⟨halike, hnext⟩ := alike_of_twins ht h hfirst hstep
        obtain ⟨hsteps, htraffic, htold⟩ := ih hnext hrest hkept hnamed
        exact ⟨.cons halike hsteps, htraffic, htold⟩
    | drop hop hkept => exact ih (h.drop ht hfirst hop) hrest hkept hnamed

theorem issues_of_created (hb : x.broker.Coherent)
    (hdistinct : (ops.filterMap Operation.eventToken?).Nodup) {m : Message}
    (hcreated : createdAs (history t x ops) id = some m) (hm : m.eventToken? = some token)
    {step : Step ω σ} (hstep : step ∈ history t x ops) :
    step.operation.Issues ⟨step.before.broker.nextId⟩ id token := by
  have htokens : ((history t x ops).filterMap (·.operation.eventToken?)).Nodup := by
    rwa [← map_operation_history t x ops, List.filterMap_map] at hdistinct
  obtain ⟨origin, horigin, hmade⟩ := exists_of_latest hcreated
  obtain ⟨waiter, hoperation, hresponse⟩ := Step.created?_eq_some.mp hmade
  have htoken : origin.operation.eventToken? = some token := by
    rw [hoperation]
    exact hm
  have hnumber : origin.response.issued? = some id.number := by
    rw [hresponse]
    rfl
  intro token' htoken'
  have hissued : step.response.issued? = some step.before.broker.nextId := by
    rw [response_of_mem_history hstep, issued?_perform, if_pos (issues_of_eventToken? htoken')]
  constructor
  · rintro rfl
    obtain rfl := eq_of_nodup_filterMap htokens hstep horigin htoken' htoken
    rw [hnumber] at hissued
    exact congrArg HeadId.mk (Option.some.inj hissued).symm
  · intro hid
    have hsame : step.response.issued? = some id.number := by rw [hissued, ← hid]
    obtain rfl := eq_of_nodup_filterMap (issued_history hb ops).1 hstep horigin hsame hnumber
    exact Option.some.inj (htoken'.symm.trans htoken)

/-- Leaving out operations on other events changes nothing about an event: there are ids under which
the other operations, done again, get the same responses, send the same messages of the event to the
same channels in the same order, and end in the same report of it. -/
theorem undisturbed_run (t : Transport σ) (ht : t.Accepts) (capacity : Nat) (transport : σ)
    (ops : List (Operation ω)) (hdistinct : (ops.filterMap Operation.eventToken?).Nodup)
    {id : HeadId} {m : Message} {e : Event}
    (hcreated : createdAs (history t (start (.new capacity) transport) ops) id = some m)
    (hm : m.decode = .ok (.event e)) {kept : List (Step ω σ)}
    (hkept : Thinned (·.operation.Spares id e.token)
      (history t (start (.new capacity) transport) ops) kept) :
    ∃ ρ : Renaming, Undisturbed ρ id e.token kept
      (history t (start (.new capacity) transport) (kept.map (·.operation.rename ρ)))
      (run t (start (.new capacity) transport) ops).2
      (run t (start (.new capacity) transport) (kept.map (·.operation.rename ρ))).2 := by
  have hsub := hkept.sublist
  have hb : (start (.new capacity : Broker ω) transport).broker.Coherent :=
    Broker.coherent_new capacity
  have hnodup : ([] ++ kept.filterMap fun s : Step ω σ => s.response.issued?).Nodup :=
    (hsub.filterMap _).nodup (issued_history hb ops).1
  obtain ⟨ρ, -, hnamed⟩ := exists_renaming
    (fun step hstep => response_of_mem_history (hsub.subset hstep)) hnodup
    (covers_start ⟨.refl Nat⟩ capacity transport)
  refine ⟨ρ, undisturbed_of_twins ht ⟨?_, ?_, ?_⟩ ?_ hkept hnamed⟩
  · exact secluded_start id e.token capacity transport
  · exact secluded_start (ρ.head id) e.token capacity transport
  · rfl
  · exact fun step hstep =>
      issues_of_created hb hdistinct hcreated (Message.eventToken?_eq hm) hstep

/-- Two gates share two sessions. The first of them takes the id that the second one has without
it. -/
theorem undisturbed_run_two_gates :
    let t : Transport Unit := ⟨fun _ _ _ => (.ok (), ())⟩
    let ask (token : UInt8) : Message := .ofBytes ([0, 0, 0, 64, 0, 0, 32, 3, 0, 0, 0, 0, 0, 0, 0,
      token, 0, 0, 0, 0, 0, 0, 0, 5] ++ List.replicate 40 0)
    let ops : List (Operation String) :=
      [.openSession 0 ⟨1⟩, .openSession 5 ⟨2⟩, .register ⟨1⟩ ⟨5, 0, 0⟩, .register ⟨2⟩ ⟨5, 0, 0⟩,
        .createHead (ask 8) (some "other"), .createHead (ask 7) (some "gate"), .dispatchAll ⟨3⟩,
        .dispatchAll ⟨4⟩, .answer ⟨1⟩ 8 .noDecision false, .answer ⟨2⟩ 7 .allow false, .teardown ⟨2⟩,
        .broadcast ⟨3⟩, .teardown ⟨1⟩]
    let past := history t (start (.new 4) ()) ops
    let kept := past.filter (¬·.operation.Spares ⟨4⟩ 7)
    t.Accepts ∧ (ops.filterMap Operation.eventToken?).Nodup ∧ createdAs past ⟨4⟩ = some (ask 7) ∧
      (ask 7).eventToken? = some 7 ∧ kept.length = 9 ∧
      ∃ ρ : Renaming, Undisturbed ρ ⟨4⟩ 7 kept
        (history t (start (.new 4) ()) (kept.map (·.operation.rename ρ)))
        (run t (start (.new 4) ()) ops).2
        (run t (start (.new 4) ()) (kept.map (·.operation.rename ρ))).2 := by
  intro t ask ops past kept
  have ht : t.Accepts := fun _ _ _ => rfl
  have hdistinct : (ops.filterMap Operation.eventToken?).Nodup := by decide +kernel
  have hcreated : createdAs past ⟨4⟩ = some (ask 7) := by decide +kernel
  have htoken : (ask 7).eventToken? = some 7 := by decide +kernel
  refine ⟨ht, hdistinct, hcreated, htoken, by decide +kernel, ?_⟩
  obtain ⟨e, he, hseven⟩ := Message.eventToken?_eq_some.mp htoken
  have hkept : Thinned (·.operation.Spares ⟨4⟩ e.token) past kept := by
    rw [hseven]
    exact thinned_filter past
  have hrun := undisturbed_run t ht 4 () ops hdistinct hcreated he hkept
  rwa [hseven] at hrun

end Exchange

end Arbiter
