import Arbiter.Proofs.Broker.History

/-!
Refused operations change nothing. A refusal leaves the broker as it was and nobody is told
anything; at most a message was offered to the transport, which did not take it. An answer is
refused for one of two causes only: the tables agree, so the instance of a pending token and its
head are always there.
-/

namespace Arbiter.Exchange

variable {ω σ : Type} {t : Transport σ} {x : Exchange ω σ}

def delivered (x : Exchange ω σ) : List Send := x.sends.filter (·.result.isOk)

structure Idle (x x' : Exchange ω σ) : Prop where
  broker : x'.broker = x.broker
  delivered : x'.delivered = x.delivered
  resolved : x'.resolved = x.resolved
  completions : x'.completions = x.completions

theorem Idle.refl (x : Exchange ω σ) : Idle x x := ⟨rfl, rfl, rfl, rfl⟩

theorem Idle.send {purpose : Purpose} {channel : ChannelId} {m : Message} {e : SendRefusal}
    (h : (x.send t purpose channel m).1 = .error e) : Idle x (x.send t purpose channel m).2 where
  broker := rfl
  delivered := by
    rw [Exchange.delivered, send_sends, h, List.filter_append]
    exact List.append_nil _
  resolved := rfl
  completions := rfl

theorem respond_eq_refused {α : Type} {ok : α → Response} (hok : ∀ a cause, ok a ≠ .refused cause)
    {result : Except Refusal α} {cause : Refusal} :
    respond ok result = .refused cause ↔ result = .error cause := by
  cases result with
  | ok a => simp [respond, hok]
  | error e => simp [respond]

theorem respond_ne_duplicate {α : Type} {ok : α → Response} (hok : ∀ a, ok a ≠ .answered .duplicate)
    {result : Except Refusal α} : respond ok result ≠ .answered .duplicate := by
  cases result with
  | ok a => exact hok a
  | error e => exact fun hsame => by cases hsame

theorem idle_dispatch {s : SessionId} {id : HeadId} {cause : Refusal}
    (h : (x.dispatch t s id).1 = .error cause) : Idle x (x.dispatch t s id).2 := by
  have hspec := dispatch_spec t x s id
  generalize x.dispatch t s id = outcome at hspec h ⊢
  obtain ⟨result, y⟩ := outcome
  cases hspec with
  | unknownSession | unknownHead | duplicate => exact .refl _
  | notInterested | sent | queued => cases h
  | refused _ _ _ hsend => exact .send hsend

theorem idle_dispatchAll {id : HeadId} {cause : Refusal}
    (h : (x.dispatchAll t id).1 = .error cause) : Idle x (x.dispatchAll t id).2 := by
  unfold dispatchAll at h ⊢
  split
  · rename_i hcontains
    rw [if_pos hcontains] at h
    cases h
  · exact .refl x

theorem idle_of_refused (hb : x.broker.Coherent) {op : Operation ω} {cause : Refusal}
    (h : (x.perform t op).1 = .refused cause) : Idle x (x.perform t op).2 := by
  -- The tables agree, so a refusal comes before anything is changed.
  obtain ⟨y, ids, he, hy⟩ := performs (t := t) hb op
  rw [h] at he
  cases he with
  | refused => exact hy ▸ .refl x
  | offered r hop _ =>
    rcases hop with rfl | ⟨s, rfl⟩
    · exact idle_dispatchAll ((respond_eq_refused fun _ _ hsame => by cases hsame).mp h)
    · exact idle_dispatch ((respond_eq_refused fun _ _ hsame => by cases hsame).mp h)

theorem eq_of_duplicate (hb : x.broker.Coherent) {op : Operation ω}
    (h : (x.perform t op).1 = .answered .duplicate) : (x.perform t op).2 = x := by
  obtain ⟨y, ids, he, hy⟩ := performs (t := t) hb op
  rw [h] at he
  cases he with
  | duplicate => exact hy
  | offered r hop _ =>
    rcases hop with rfl | ⟨s, rfl⟩
    · exact absurd h (respond_ne_duplicate fun _ hsame => by cases hsame)
    · exact absurd h (respond_ne_duplicate fun _ hsame => by cases hsame)
  | answered _ _ _ _ _ _ hresult =>
    rcases hresult with ⟨hresult, -⟩ | ⟨hresult, -⟩ <;> cases hresult

theorem eq_of_refused_answer (hb : x.broker.Coherent) {s : SessionId} {token : UInt64}
    {verdict : Verdict} {delegate : Bool} {cause : Refusal}
    (h : (x.answer t s token verdict delegate).1 = .error cause) :
    (x.answer t s token verdict delegate).2 = x := by
  obtain ⟨y, ids, he, hy⟩ := performs (t := t) hb (.answer s token verdict delegate)
  simp only [perform, Prod.map, h, respond, id_eq] at he hy
  cases he with
  | refused => exact hy
  | offered _ hop =>
    rcases hop with hop | ⟨s, hop⟩ <;> cases hop

theorem cause_of_answer (hb : x.broker.Coherent) {s : SessionId} {token : UInt64}
    {verdict : Verdict} {delegate : Bool} {cause : Refusal}
    (h : (x.answer t s token verdict delegate).1 = .error cause) :
    (cause = .unknownSession s ∧ x.broker.sessions.get? s = none) ∨
      cause = .unknownToken token ∧ x.broker.awaited? s token = none := by
  -- The instance of a pending token and its head are there, so an answer under such a token is
  -- taken.
  cases hs : x.broker.sessions.get? s with
  | none =>
    simp only [answer, hs] at h
    exact .inl ⟨(Except.error.inj h).symm, rfl⟩
  | some sess =>
    cases hpending : sess.pending.get? token with
    | none =>
      simp only [answer, hs] at h
      rw [hpending] at h
      simp only at h
      split at h
      · cases h
      · refine .inr ⟨(Except.error.inj h).symm, ?_⟩
        rw [Broker.awaited?, hs, Option.bind_some, hpending]
    | some i =>
      have hawaited : x.broker.awaited? s token = some i := by simp [Broker.awaited?, hs, hpending]
      obtain ⟨inst, hi, -⟩ := hb.awaited.mp hawaited
      obtain ⟨head, hh, -⟩ := hb.listed hi
      rw [answer_of_pending hb hs hpending hi hh] at h
      split at h <;> cases h

structure FailsSoftly (t : Transport σ) (x : Exchange ω σ) (op : Operation ω) : Prop where
  refused {cause} : (x.perform t op).1 = .refused cause → Idle x (x.perform t op).2
  duplicate : (x.perform t op).1 = .answered .duplicate → (x.perform t op).2 = x
  answer {s token verdict delegate cause} : op = .answer s token verdict delegate →
    (x.perform t op).1 = .refused cause →
      (cause = .unknownSession s ∧ x.broker.sessions.get? s = none) ∨
        cause = .unknownToken token ∧ x.broker.awaited? s token = none

/-- After every run, whatever is asked of the broker next. -/
theorem failsSoftly_run (t : Transport σ) (capacity : Nat) (transport : σ)
    (ops : List (Operation ω)) (op : Operation ω) :
    FailsSoftly t (run t (start (.new capacity) transport) ops).2 op := by
  have hb := coherent_run t capacity transport ops
  refine ⟨idle_of_refused hb, eq_of_duplicate hb, ?_⟩
  rintro s token verdict delegate cause rfl hrefused
  exact cause_of_answer hb ((respond_eq_refused fun _ _ hsame => by cases hsame).mp hrefused)

end Arbiter.Exchange
