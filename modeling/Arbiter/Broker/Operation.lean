import Arbiter.Broker.Dispatch
import Arbiter.Broker.Resolution

/-!
Everything that can be asked of the broker, as data, and runs of such operations.
-/

namespace Arbiter

inductive Operation (ω : Type) where
  | openSession (uid : UInt32) (channel : ChannelId)
  | register (session : SessionId) (filter : Filter)
  | unregister (session : SessionId) (filter : Filter)
  | createHead (message : Message) (waiter : Option ω)
  | setWaiter (head : HeadId) (waiter : ω)
  | abandon (head : HeadId)
  | dispatch (session : SessionId) (head : HeadId)
  | dispatchAll (head : HeadId)
  | answer (session : SessionId) (token : UInt64) (verdict : Verdict) (delegate : Bool)
  | broadcast (head : HeadId)
  | teardown (session : SessionId)

inductive Response where
  | opened (id : SessionId)
  | done
  | created (id : HeadId)
  | abandoned (message : Message)
  | dispatched (result : Dispatch)
  | delivered (count : Nat)
  | answered (result : Answer)
  | resolved (present : Bool)
  | tornDown (report : Teardown)
  | refused (cause : Refusal)

namespace Exchange

variable {ω σ : Type}

def respond (ok : α → Response) : Except Refusal α → Response
  | .ok a => ok a
  | .error e => .refused e

/-- A broker operation that sends nothing: refused, or with a result and a new state. -/
def update (x : Exchange ω σ) (result : Except Refusal α) (ok : α → Response)
    (broker : α → Broker ω) : Response × Exchange ω σ :=
  match result with
  | .ok a => (ok a, x.withBroker (broker a))
  | .error e => (.refused e, x)

def perform (t : Transport σ) (x : Exchange ω σ) : Operation ω → Response × Exchange ω σ
  | .openSession uid channel =>
    let (id, b) := x.broker.openSession uid channel
    (.opened id, x.withBroker b)
  | .register session f => x.update (x.broker.register session f) (fun _ => .done) id
  | .unregister session f => x.update (x.broker.unregister session f) (fun _ => .done) id
  | .createHead m waiter =>
    x.update (x.broker.createHead m waiter) (fun r => .created r.1) Prod.snd
  | .setWaiter head waiter => x.update (x.broker.setWaiter head waiter) (fun _ => .done) id
  | .abandon head => x.update (x.broker.abandon head) (fun r => .abandoned r.1) Prod.snd
  | .dispatch session head => (x.dispatch t session head).map (respond .dispatched) id
  | .dispatchAll head => (x.dispatchAll t head).map (respond .delivered) id
  | .answer session token verdict delegate =>
    (x.answer t session token verdict delegate).map (respond .answered) id
  | .broadcast head => (x.broadcast t head).map .resolved id
  | .teardown session => (x.teardown t session).map (respond .tornDown) id

/-- The responses to operations performed one after another, and the state they end in. -/
def run (t : Transport σ) (x : Exchange ω σ) : List (Operation ω) → List Response × Exchange ω σ
  | [] => ([], x)
  | op :: ops =>
    let (r, x) := x.perform t op
    let (rs, x) := run t x ops
    (r :: rs, x)

end Exchange

end Arbiter
