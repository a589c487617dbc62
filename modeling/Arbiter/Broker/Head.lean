import Arbiter.Broker.Session
import Arbiter.Message.Content
import Arbiter.Message.Buffer

/-!
One event in the broker's hands, its head, and the copies of it given to sessions, its instances.
-/

namespace Arbiter

inductive InstanceState where
  | pending
  | verdictGiven
  | replied
  | done
deriving DecidableEq, Repr

def InstanceState.label : InstanceState → String
  | pending => "Pending"
  | verdictGiven => "VerdictGiven"
  | replied => "Replied"
  | done => "Done"

structure Instance where
  token : UInt64
  session : SessionId
  head : HeadId
  verdictReceived : Bool
  replied : Bool
deriving DecidableEq

namespace Instance

def new (token : UInt64) (session : SessionId) (head : HeadId) : Instance :=
  ⟨token, session, head, false, false⟩

def state (i : Instance) : InstanceState :=
  match i.verdictReceived, i.replied with
  | false, false => .pending
  | true, false => .verdictGiven
  | false, true => .replied
  | true, true => .done

def giveVerdict (i : Instance) : Instance := { i with verdictReceived := true }

end Instance

inductive EventKind where
  | notify
  | ask
deriving DecidableEq, Repr

def EventKind.name : EventKind → String
  | notify => "Notify"
  | ask => "Ask"

/-- Whose answer the recorded verdict is. -/
structure Decider where
  inst : InstanceId
  uid : UInt32
deriving DecidableEq

/-- `ω` names those who wait for the event to be resolved. -/
structure Head (ω : Type) where
  message : Message
  token : UInt64
  key : Filter
  kind : EventKind
  verdict : Option Verdict
  decider : Option Decider
  /-- How many instances have given no verdict yet. -/
  live : Nat
  instances : List InstanceId
  waiter : Option ω

namespace Head

variable {ω : Type}

def new (message : Message) (e : Event) (waiter : Option ω) : Head ω :=
  ⟨message, e.token, e.key, if e.needsVerdict then .ask else .notify, none, none, 0, [], waiter⟩

def outcome (h : Head ω) : Verdict := h.verdict.getD .noDecision

def deciderUid (h : Head ω) : UInt32 := (h.decider.map Decider.uid).getD 0

def decidedBy (h : Head ω) (id : InstanceId) : Bool := h.decider.any (·.inst = id)

end Head

/-- What the one who waits for an event is told once it is resolved. -/
structure Completion (ω : Type) where
  waiter : ω
  head : HeadId
  message : Message
  verdict : Verdict
  decidedBy : Option UInt32
  notified : Nat

end Arbiter
