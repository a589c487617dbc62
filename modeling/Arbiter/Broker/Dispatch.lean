import Arbiter.Broker.Exchange

/-!
Offering an event to sessions. An event that needs a verdict leaves an instance with each session
that takes it; one that does not leaves nothing.
-/

namespace Arbiter

inductive Dispatch where
  | sent
  | notInterested
  | queued
deriving DecidableEq, Repr

def Dispatch.label : Dispatch → String
  | sent => "Sent"
  | notInterested => "NotInterested"
  | queued => "Queued"

namespace Exchange

variable {ω σ : Type}

def dispatch (t : Transport σ) (x : Exchange ω σ) (session : SessionId) (head : HeadId) :
    Except Refusal Dispatch × Exchange ω σ :=
  match x.broker.sessions.get? session with
  | none => (.error (.unknownSession session), x)
  | some s =>
    match x.broker.heads.get? head with
    | none => (.error (.unknownHead head), x)
    | some h =>
      if !s.interested h.key then (.ok .notInterested, x)
      else
        match h.kind with
        | .notify =>
          match x.send t (.event session head) s.channel h.message with
          | (.error e, x) => (.error (.ofSend e), x)
          | (.ok _, x) => (.ok .sent, x)
        | .ask =>
          if s.pending.contains h.token then (.error (.duplicateToken h.token), x)
          else
            match x.send t (.event session head) s.channel h.message with
            | (.error e, x) => (.error (.ofSend e), x)
            | (.ok _, x) => (.ok .queued, x.withBroker (x.broker.addInstance session head h.token))

/-- One more session of a fan-out: counted if it took the event, lost if its send was refused. -/
def offer (t : Transport σ) (head : HeadId) (progress : Nat × Exchange ω σ) (session : SessionId) :
    Nat × Exchange ω σ :=
  let (delivered, x) := progress
  match x.dispatch t session head with
  | (.ok .notInterested, x) => (delivered, x)
  | (.ok _, x) => (delivered + 1, x)
  | (.error e, x) =>
    if e.IsSend then (delivered, x.withBroker (x.broker.markLost session)) else (delivered, x)

/-- The event is offered to every session not lost, in the order in which they were opened. -/
def dispatchAll (t : Transport σ) (x : Exchange ω σ) (head : HeadId) :
    Except Refusal Nat × Exchange ω σ :=
  if x.broker.heads.contains head then
    let (delivered, x) := x.broker.reachableSessions.foldl (offer t head) (0, x)
    (.ok delivered, x)
  else (.error (.unknownHead head), x)

end Exchange

end Arbiter
