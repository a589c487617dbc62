import Arbiter.Broker.Exchange
import Arbiter.Message.Encode

/-!
How events end. An answer is recorded and, unless it is delegated to others still to answer,
resolves the event; so does the end of the last session that could still answer. A resolved event is
gone: every instance left is told the outcome, and whoever waits for it is told once.
-/

namespace Arbiter

inductive Answer where
  | decided
  | delegated
  | duplicate
deriving DecidableEq, Repr

def Answer.label : Answer → String
  | decided => "Decided"
  | delegated => "Delegated"
  | duplicate => "Duplicate"

structure Teardown where
  registrations : Nat
  drained : Nat
  resolved : Nat
deriving DecidableEq, Repr

namespace Exchange

variable {ω σ : Type}

/-- One instance of a resolved head is told the outcome; a refused send loses its session. -/
def conclude (t : Transport σ) (h : Head ω) (progress : Nat × Exchange ω σ) (id : InstanceId) :
    Nat × Exchange ω σ :=
  let (notified, x) := progress
  match x.broker.instances.get? id with
  | none => (notified, x)
  | some i =>
    let x := x.withBroker { x.broker with instances := x.broker.instances.erase id }
    match x.broker.sessions.get? i.session with
    | none => (notified, x)
    | some s =>
      let (notified, x) :=
        match Message.outcome i.token (h.decidedBy id) h.deciderUid h.outcome with
        | .error _ => (notified, x)
        | .ok m =>
          match x.send t (.outcome i.session i.head) s.channel m with
          | (.ok _, x) => (notified + 1, x)
          | (.error _, x) => (notified, x.withBroker (x.broker.markLost i.session))
      (notified, x.withBroker (x.broker.modifySession i.session (·.settle i.token)))

/-- False if the head is already gone. -/
def broadcast (t : Transport σ) (x : Exchange ω σ) (head : HeadId) : Bool × Exchange ω σ :=
  match x.broker.heads.get? head with
  | none => (false, x)
  | some h =>
    let x := { x with
      broker := { x.broker with heads := x.broker.heads.erase head }
      resolved := x.resolved ++ [head] }
    let (notified, x) := h.instances.foldl (conclude t h) (0, x)
    (true, x.complete head h notified)

/-- The head after a verdict from one of its instances, the first from it or a later one. -/
def recordVerdict (h : Head ω) (first : Bool) (verdict : Verdict) (decider : Decider) : Head ω :=
  { h with
    live := if first then h.live - 1 else h.live
    verdict := some verdict
    decider := some decider }

def answer (t : Transport σ) (x : Exchange ω σ) (session : SessionId) (token : UInt64)
    (verdict : Verdict) (delegate : Bool) : Except Refusal Answer × Exchange ω σ :=
  match x.broker.sessions.get? session with
  | none => (.error (.unknownSession session), x)
  | some s =>
    match s.pending.get? token with
    | none =>
      if s.settled.contains token then (.ok .duplicate, x) else (.error (.unknownToken token), x)
    | some id =>
      match x.broker.instances.get? id with
      | none => (.error (.unknownToken token), x)
      | some i =>
        if i.replied then (.error (.alreadyAnswered token), x)
        else
          let b := { x.broker with
            instances := x.broker.instances.modify id Instance.giveVerdict }
          match b.heads.get? i.head with
          | none => (.error (.unknownHead i.head), x.withBroker b)
          | some h =>
            let h := recordVerdict h (!i.verdictReceived) verdict ⟨id, s.uid⟩
            let x := x.withBroker (b.modifyHead i.head fun _ => h)
            if delegate && 0 < h.live then (.ok .delegated, x)
            else (.ok .decided, (x.broadcast t i.head).2)

/-- The head after one of its instances left with its session. -/
def withdrawInstance (h : Head ω) (id : InstanceId) (answered : Bool) : Head ω :=
  let h := { h with instances := h.instances.erase id }
  if answered then h
  else
    let live := h.live - 1
    { h with live, verdict := if live = 0 then some h.outcome else h.verdict }

structure Withdrawal (ω : Type) where
  broker : Broker ω
  drained : Nat
  ready : List HeadId

/-- A pending instance of a closing session is withdrawn; a head with no live instance is ready. -/
def withdraw (w : Withdrawal ω) (id : InstanceId) : Withdrawal ω :=
  match w.broker.instances.get? id with
  | none => w
  | some i =>
    let b := { w.broker with instances := w.broker.instances.erase id }
    match b.heads.get? i.head with
    | none => { w with broker := b, drained := w.drained + 1 }
    | some h =>
      let h := withdrawInstance h id i.verdictReceived
      { broker := b.modifyHead i.head fun _ => h
        drained := w.drained + 1
        ready := if h.live = 0 then w.ready ++ [i.head] else w.ready }

def resolveNext (t : Transport σ) (progress : Nat × Exchange ω σ) (head : HeadId) :
    Nat × Exchange ω σ :=
  let (resolved, x) := progress
  match x.broadcast t head with
  | (true, x) => (resolved + 1, x)
  | (false, x) => (resolved, x)

def teardown (t : Transport σ) (x : Exchange ω σ) (session : SessionId) :
    Except Refusal Teardown × Exchange ω σ :=
  match x.broker.sessions.get? session with
  | none => (.error (.unknownSession session), x)
  | some s =>
    let b := { x.broker with sessions := x.broker.sessions.erase session }
    let w := s.pending.values.foldl withdraw ⟨b, 0, []⟩
    let (resolved, x) := w.ready.foldl (resolveNext t) (0, x.withBroker w.broker)
    (.ok ⟨s.registrations.length, w.drained, resolved⟩, x)

end Exchange

end Arbiter
