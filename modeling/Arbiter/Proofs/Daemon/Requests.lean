import Mathlib.Data.List.Induction
import Arbiter.Daemon.Basic

/-!
What a run of the daemon was asked. A gate request that is taken from its queue is kept with the
head that was made for it, if its message is an event; those still queued when the daemon is shut
down are never looked at.
-/

namespace Arbiter

structure GateRequest (γ : Type) where
  gate : γ
  message : Message
  head : Option HeadId

def DaemonEvent.gates {γ : Type} : DaemonEvent γ → List γ
  | .gate g _ => [g]
  | .shutdown _ waiting => waiting
  | _ => []

def DaemonEvent.isShutdown {γ : Type} : DaemonEvent γ → Bool
  | .shutdown .. => true
  | _ => false

namespace Daemon

variable {γ : Type}

def headFor? (d : Daemon γ) (m : Message) : Option HeadId :=
  match d.broker.createHead m none with
  | .ok (head, _) => some head
  | .error _ => none

def request? (d : Daemon γ) : DaemonEvent γ → Option (GateRequest γ)
  | .gate gate m => if d.running then some ⟨gate, m, d.headFor? m⟩ else none
  | _ => none

def requests (d : Daemon γ) : List (DaemonEvent γ) → List (GateRequest γ)
  | [] => []
  | e :: events => (d.request? e).toList ++ requests (d.step e) events

/-- The gates that are still waiting to be looked at when the daemon is shut down. -/
def leftWaiting (d : Daemon γ) : DaemonEvent γ → List γ
  | .shutdown _ waiting => if d.running then waiting else []
  | _ => []

def unheard (d : Daemon γ) : List (DaemonEvent γ) → List γ
  | [] => []
  | e :: events => d.leftWaiting e ++ unheard (d.step e) events

theorem run_snoc (d : Daemon γ) (events : List (DaemonEvent γ)) (e : DaemonEvent γ) :
    d.run (events ++ [e]) = (d.run events).step e :=
  List.foldl_append ..

theorem requests_snoc (d : Daemon γ) (events : List (DaemonEvent γ)) (e : DaemonEvent γ) :
    d.requests (events ++ [e]) = d.requests events ++ ((d.run events).request? e).toList := by
  induction events generalizing d with
  | nil => exact List.append_nil _
  | cons e' events ih =>
    rw [List.cons_append, requests, ih, requests, List.append_assoc]
    rfl

theorem unheard_snoc (d : Daemon γ) (events : List (DaemonEvent γ)) (e : DaemonEvent γ) :
    d.unheard (events ++ [e]) = d.unheard events ++ (d.run events).leftWaiting e := by
  induction events generalizing d with
  | nil => exact List.append_nil _
  | cons e' events ih =>
    rw [List.cons_append, unheard, ih, unheard, List.append_assoc]
    rfl

theorem run_induction {I : List (DaemonEvent γ) → Daemon γ → Prop} {d : Daemon γ}
    (hstart : I [] d) (hstep : ∀ {events} (e), I events (d.run events) →
      I (events ++ [e]) ((d.run events).step e)) (events : List (DaemonEvent γ)) :
    I events (d.run events) := by
  induction events using List.reverseRecOn with
  | nil => exact hstart
  | append_singleton events e ih =>
    rw [run_snoc]
    exact hstep e ih

section Running

variable {d : Daemon γ} {e : DaemonEvent γ}

theorem request?_gates (h : d.running = true) (he : e.isShutdown = false) :
    (d.request? e).toList.map GateRequest.gate = e.gates := by
  cases e with
  | gate gate m =>
    rw [show d.request? (.gate gate m) = some ⟨gate, m, d.headFor? m⟩ from if_pos h]
    rfl
  | shutdown order waiting => cases he
  | _ => rfl

theorem leftWaiting_of_open (he : e.isShutdown = false) : d.leftWaiting e = [] := by
  cases e with
  | shutdown order waiting => cases he
  | _ => rfl

theorem request?_of_shutdown (he : e.isShutdown = true) : d.request? e = none := by
  cases e with
  | shutdown => rfl
  | _ => cases he

end Running

section Stopped

variable {d : Daemon γ} {e : DaemonEvent γ}

theorem step_of_stopped (h : d.running = false) : d.step e = d := by
  unfold step
  rw [h]
  rfl

theorem request?_of_stopped (h : d.running = false) : d.request? e = none := by
  cases e with
  | gate gate m => exact if_neg (by simp [h])
  | _ => rfl

theorem leftWaiting_of_stopped (h : d.running = false) : d.leftWaiting e = [] := by
  cases e with
  | shutdown order waiting => exact if_neg (by simp [h])
  | _ => rfl

end Stopped

end Daemon

end Arbiter
