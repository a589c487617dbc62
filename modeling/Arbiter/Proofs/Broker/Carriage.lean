import Mathlib.Logic.Relation
import Arbiter.Broker.Operation

/-!
The transport under the broker. Whatever the broker is asked to do, it changes the transport by
sends alone and keeps each of them with its result, so what every send preserves of a transport,
every operation preserves, and over a transport that accepts everything nothing is refused.
-/

namespace Arbiter

namespace Transport

variable {σ : Type}

def Carries (t : Transport σ) : σ → σ → Prop :=
  Relation.ReflTransGen fun s s' => ∃ channel m, s' = (t.send s channel m).2

def Accepts (t : Transport σ) : Prop := ∀ s channel m, (t.send s channel m).1 = .ok ()

def Emits (t : Transport σ) (p q : σ × List Send) : Prop :=
  ∃ purpose channel m,
    q = ((t.send p.1 channel m).2, p.2 ++ [⟨purpose, channel, m, (t.send p.1 channel m).1⟩])

end Transport

namespace Exchange

variable {ω σ : Type}

/-- From `x` to `x'` the transport was used for the sends that `x'` keeps, and for nothing else. -/
def Emits (t : Transport σ) (x x' : Exchange ω σ) : Prop :=
  Relation.ReflTransGen t.Emits (x.transport, x.sends) (x'.transport, x'.sends)

theorem Emits.carries {t : Transport σ} {x x' : Exchange ω σ} (h : Emits t x x') :
    t.Carries x.transport x'.transport := by
  refine Relation.ReflTransGen.lift Prod.fst ?_ _ _ h
  rintro p _ ⟨purpose, channel, m, rfl⟩
  exact ⟨channel, m, rfl⟩

theorem Emits.accepted {t : Transport σ} {x x' : Exchange ω σ} (h : Emits t x x')
    (ht : t.Accepts) :
    ∃ new, x'.sends = x.sends ++ new ∧ ∀ send ∈ new, send.result = .ok () := by
  suffices hpair : ∀ p q, Relation.ReflTransGen t.Emits p q →
      ∃ new, q.2 = p.2 ++ new ∧ ∀ send ∈ new, send.result = .ok () from hpair _ _ h
  intro p q h
  induction h with
  | refl => exact ⟨[], (List.append_nil _).symm, by simp⟩
  | tail _ hsend ih =>
    obtain ⟨new, hnew, hok⟩ := ih
    obtain ⟨purpose, channel, m, rfl⟩ := hsend
    refine ⟨new ++ [_], by rw [hnew, List.append_assoc], fun send hmem => ?_⟩
    rcases List.mem_append.mp hmem with hmem | hmem
    · exact hok send hmem
    · rw [List.mem_singleton.mp hmem]
      exact ht _ _ _

theorem send_emits (t : Transport σ) (x : Exchange ω σ) (purpose : Purpose)
    (channel : ChannelId) (m : Message) : Emits t x (x.send t purpose channel m).2 :=
  .single ⟨purpose, channel, m, rfl⟩

theorem send_carries (t : Transport σ) (x : Exchange ω σ) (purpose : Purpose)
    (channel : ChannelId) (m : Message) :
    t.Carries x.transport (x.send t purpose channel m).2.transport :=
  (send_emits t x purpose channel m).carries

theorem foldl_emits {t : Transport σ} {α : Type}
    {f : Nat × Exchange ω σ → α → Nat × Exchange ω σ}
    (hf : ∀ progress a, Emits t progress.2 (f progress a).2) (as : List α)
    (progress : Nat × Exchange ω σ) : Emits t progress.2 (as.foldl f progress).2 := by
  induction as generalizing progress with
  | nil => exact .refl
  | cons a as ih => exact (hf progress a).trans (ih (f progress a))

theorem conclude_emits (t : Transport σ) (h : Head ω) (progress : Nat × Exchange ω σ)
    (id : InstanceId) : Emits t progress.2 (conclude t h progress id).2 := by
  obtain ⟨notified, x⟩ := progress
  simp only [conclude]
  cases hi : x.broker.instances.get? id with
  | none => exact .refl
  | some inst =>
    simp only
    split
    · exact .refl
    · rename_i sess hs
      split
      · exact .refl
      · rename_i m hm
        have hsend := send_emits t (x.withBroker
          { x.broker with instances := x.broker.instances.erase id })
          (.outcome inst.session inst.head) sess.channel m
        split <;> rename_i heq <;> rw [heq] at hsend <;> exact hsend

theorem complete_emits (t : Transport σ) (x : Exchange ω σ) (id : HeadId) (h : Head ω)
    (notified : Nat) : Emits t x (x.complete id h notified) := by
  unfold complete
  split <;> exact .refl

theorem broadcast_emits (t : Transport σ) (x : Exchange ω σ) (head : HeadId) :
    Emits t x (x.broadcast t head).2 := by
  unfold broadcast
  split
  · exact .refl
  · rename_i h hh
    have hloop := foldl_emits (conclude_emits t h) h.instances (0, { x with
      broker := { x.broker with heads := x.broker.heads.erase head }
      resolved := x.resolved ++ [head] })
    exact .trans hloop (complete_emits t _ _ _ _)

theorem resolveNext_emits (t : Transport σ) (progress : Nat × Exchange ω σ) (head : HeadId) :
    Emits t progress.2 (resolveNext t progress head).2 := by
  obtain ⟨resolved, x⟩ := progress
  have hbroadcast := broadcast_emits t x head
  simp only [resolveNext]
  split <;> rename_i heq <;> rw [heq] at hbroadcast <;> exact hbroadcast

theorem teardown_emits (t : Transport σ) (x : Exchange ω σ) (session : SessionId) :
    Emits t x (x.teardown t session).2 := by
  unfold teardown
  split
  · exact .refl
  · simp only
    refine .trans ?_ (foldl_emits (resolveNext_emits t) _ _)
    exact .refl

theorem answer_emits (t : Transport σ) (x : Exchange ω σ) (session : SessionId)
    (token : UInt64) (verdict : Verdict) (delegate : Bool) :
    Emits t x (x.answer t session token verdict delegate).2 := by
  unfold answer
  split
  · exact .refl
  · split
    · split <;> exact .refl
    · split
      · exact .refl
      · split
        · exact .refl
        · simp only
          split
          · exact .refl
          · split
            · exact .refl
            · refine .trans ?_ (broadcast_emits t _ _)
              exact .refl

theorem dispatch_emits (t : Transport σ) (x : Exchange ω σ) (session : SessionId)
    (head : HeadId) : Emits t x (x.dispatch t session head).2 := by
  unfold dispatch
  split
  · exact .refl
  · rename_i s hs
    split
    · exact .refl
    · rename_i h hh
      have hsend := send_emits t x (.event session head) s.channel h.message
      split
      · exact .refl
      · split
        · split <;> rename_i heq <;> rw [heq] at hsend <;> exact hsend
        · split
          · exact .refl
          · split <;> rename_i heq <;> rw [heq] at hsend <;> exact hsend

theorem offer_emits (t : Transport σ) (head : HeadId) (progress : Nat × Exchange ω σ)
    (session : SessionId) : Emits t progress.2 (offer t head progress session).2 := by
  obtain ⟨delivered, x⟩ := progress
  have hdispatch := dispatch_emits t x session head
  simp only [offer]
  split <;> rename_i heq <;> rw [heq] at hdispatch
  · exact hdispatch
  · exact hdispatch
  · split <;> exact hdispatch

theorem dispatchAll_emits (t : Transport σ) (x : Exchange ω σ) (head : HeadId) :
    Emits t x (x.dispatchAll t head).2 := by
  unfold dispatchAll
  split
  · simp only
    exact foldl_emits (offer_emits t head) _ (0, x)
  · exact .refl

theorem dispatchAll_carries (t : Transport σ) (x : Exchange ω σ) (head : HeadId) :
    t.Carries x.transport (x.dispatchAll t head).2.transport :=
  (dispatchAll_emits t x head).carries

theorem update_emits {α : Type} (t : Transport σ) (x : Exchange ω σ)
    (result : Except Refusal α) (ok : α → Response) (broker : α → Broker ω) :
    Emits t x (x.update result ok broker).2 := by
  unfold update
  split <;> exact .refl

theorem perform_emits (t : Transport σ) (x : Exchange ω σ) (op : Operation ω) :
    Emits t x (x.perform t op).2 := by
  cases op with
  | openSession => exact .refl
  | register => exact update_emits t x _ _ _
  | unregister => exact update_emits t x _ _ _
  | createHead => exact update_emits t x _ _ _
  | setWaiter => exact update_emits t x _ _ _
  | abandon => exact update_emits t x _ _ _
  | dispatch session head => exact dispatch_emits t x session head
  | dispatchAll head => exact dispatchAll_emits t x head
  | answer session token verdict delegate => exact answer_emits t x session token verdict delegate
  | broadcast head => exact broadcast_emits t x head
  | teardown session => exact teardown_emits t x session

theorem perform_carries (t : Transport σ) (x : Exchange ω σ) (op : Operation ω) :
    t.Carries x.transport (x.perform t op).2.transport :=
  (perform_emits t x op).carries

end Exchange

end Arbiter
