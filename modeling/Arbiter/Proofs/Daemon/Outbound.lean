import Arbiter.Proofs.Client.Runs
import Arbiter.Proofs.Daemon.Turns

/-!
The form of what the daemon sends. Every message that was ever queued is well-formed and all that
the daemon wrote itself is sealed. Gates are only asked for the form: an event with a wrong trailer
reaches its subscribers, who refuse it.
-/

namespace Arbiter

namespace Daemon

variable {γ : Type}

structure Outbound (events : List (DaemonEvent γ)) (log : DaemonLog γ) : Prop where
  verified {send} : send ∈ log.queued → send.message.verify = .ok ()
  /-- Every message passes its check, but for events whose gate did not seal them. -/
  checked {send} : send ∈ log.queued → send.message.check = .ok () ∨
    ∃ gate, DaemonEvent.gate gate send.message ∈ events
  /-- For a client the only wire error is the trailer of a message that was not sealed. -/
  received {send} : send ∈ log.queued → ∀ seed calls fault,
    (((Client.fresh seed).run calls).receive send.message).1 = .error (.malformed fault) ↔
      ¬send.message.Sealed ∧ fault = .badChecksum

/-- The daemon sends nothing that is not well-formed, and nothing of its own that is not sealed. -/
theorem outbound_run (settings : DaemonSettings) (events : List (DaemonEvent γ)) :
    Outbound events ((new settings).run events).log := by
  have hqueued : ∀ send ∈ ((new settings).run events).log.queued, send.message.verify = .ok () ∧
      (send.message.Sealed ∨ ∃ gate, DaemonEvent.gate gate send.message ∈ events) := by
    refine run_induction (I := fun events d => ∀ send ∈ d.log.queued,
      send.message.verify = .ok () ∧
        (send.message.Sealed ∨ ∃ gate, DaemonEvent.gate gate send.message ∈ events))
      (by simp [new, DaemonLog.empty]) (fun {events} e ih send hs => ?_) events
    obtain ⟨added, hadded, hpassed, -⟩ :=
      (turn_step (coherent_run settings events) e).queued
    rw [hadded, List.mem_append] at hs
    rcases hs with hs | hs
    · refine (ih send hs).imp_right (Or.imp_right ?_)
      rintro ⟨gate, hgate⟩
      exact ⟨gate, List.mem_append_left _ hgate⟩
    · refine (hpassed send hs).imp_right (Or.imp_right fun hmem => ?_)
      cases e with
      | gate gate m =>
        rw [DaemonEvent.passed, List.mem_singleton] at hmem
        exact ⟨gate, by simp [hmem]⟩
      | _ => exact absurd hmem List.not_mem_nil
  constructor
  · exact fun hs => (hqueued _ hs).1
  · intro send hs
    obtain ⟨hverify, hsealed⟩ := hqueued send hs
    exact hsealed.imp_left fun hsealed => Message.check_eq_ok.mpr ⟨hsealed, hverify⟩
  · intro send hs seed calls fault
    rw [(Client.poised_run seed calls).receive_eq_malformed]
    exact Message.check_eq_error (hqueued send hs).1

def rootSubscription : List (DaemonEvent γ) :=
  [.accept 0,
    .frame ⟨1⟩ ⟨#[0, 0, 0, 24, 0, 0, 16, 1, 0, 0, 0, 0, 0, 0, 0, 1, 0, 0, 0, 3, 156, 46, 183, 250]⟩,
    .frame ⟨1⟩ ⟨#[0, 0, 0, 36, 0, 0, 32, 0, 0, 0, 0, 0, 0, 0, 0, 2, 0, 0, 0, 0, 0, 0, 0, 0, 0, 0, 0,
      0, 0, 0, 0, 0, 73, 59, 206, 250]⟩]

def unsealedNotice : Message :=
  ⟨#[0, 0, 0, 64, 0, 0, 32, 2, 0, 0, 0, 0, 0, 0, 0, 7, 0, 0, 0, 1, 0, 0, 3, 232, 0, 0, 0, 0, 0, 0,
    0, 1, 0, 0, 0, 0, 0, 0, 0, 0, 0, 0, 0, 0, 0, 0, 0, 0, 0, 0, 0, 0, 0, 0, 0, 0, 0, 0, 0, 0, 231,
    103, 237, 65]⟩

set_option maxRecDepth 100000 in
/-- The notice is queued for the subscriber as it came. -/
theorem not_outbound_sealed : ¬∀ (settings : DaemonSettings) (events : List (DaemonEvent Nat)),
    ∀ send ∈ ((new settings).run events).log.queued, send.message.check = .ok () := by
  intro h
  have hqueued : ((new .default).run (rootSubscription ++ [.gate 0 unsealedNotice])).log.queued.any
      (fun send => send.message = unsealedNotice) = true := by decide +kernel
  have hunsealed : ¬unsealedNotice.Sealed := by decide +kernel
  obtain ⟨send, hs, hmessage⟩ := List.any_eq_true.mp hqueued
  have hcheck := h .default _ send hs
  rw [of_decide_eq_true hmessage] at hcheck
  exact hunsealed (Message.check_eq_ok.mp hcheck).1

end Daemon

end Arbiter
