import Arbiter.Broker.Basic

/-!
The broker at work over a transport. A transport accepts or refuses each message for a channel and
may change as it does; nothing else is assumed of it. What was offered to it and for what, which
events were resolved, and who was told so is kept in the order in which it happened.
-/

namespace Arbiter

structure Transport (σ : Type) where
  send : σ → ChannelId → Message → Except SendRefusal Unit × σ

/-- What a message was sent for: to give a session its copy of an event, to tell it how the event
ended, or to answer a connection. -/
inductive Purpose where
  | event (session : SessionId) (head : HeadId)
  | outcome (session : SessionId) (head : HeadId)
  | reply
deriving DecidableEq

structure Send where
  purpose : Purpose
  channel : ChannelId
  message : Message
  result : Except SendRefusal Unit

structure Exchange (ω σ : Type) where
  broker : Broker ω
  transport : σ
  sends : List Send
  resolved : List HeadId
  completions : List (Completion ω)

namespace Exchange

variable {ω σ : Type}

def start (broker : Broker ω) (transport : σ) : Exchange ω σ :=
  ⟨broker, transport, [], [], []⟩

def withBroker (x : Exchange ω σ) (b : Broker ω) : Exchange ω σ := { x with broker := b }

def send (t : Transport σ) (x : Exchange ω σ) (purpose : Purpose) (channel : ChannelId)
    (m : Message) : Except SendRefusal Unit × Exchange ω σ :=
  let (result, transport) := t.send x.transport channel m
  (result, { x with transport, sends := x.sends ++ [⟨purpose, channel, m, result⟩] })

def complete (x : Exchange ω σ) (id : HeadId) (h : Head ω) (notified : Nat) : Exchange ω σ :=
  match h.waiter with
  | none => x
  | some waiter =>
    { x with completions := x.completions ++
      [⟨waiter, id, h.message, h.outcome, h.decider.map Decider.uid, notified⟩] }

end Exchange

end Arbiter
