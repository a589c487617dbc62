import Arbiter.Filter
import Arbiter.Table

/-!
One subscriber as the broker sees it: its user, the channel that reaches it, what it subscribed to,
the events it was asked about, and the tokens of those settled not long ago.
-/

namespace Arbiter

structure SessionId where
  number : Nat
deriving DecidableEq, Repr, Inhabited

structure HeadId where
  number : Nat
deriving DecidableEq, Repr, Inhabited

structure InstanceId where
  number : Nat
deriving DecidableEq, Repr, Inhabited

structure ChannelId where
  number : Nat
deriving DecidableEq, Repr, Inhabited

def SessionId.text (id : SessionId) : String := s!"s{id.number}"

def HeadId.text (id : HeadId) : String := s!"h{id.number}"

/-- The tokens settled last: in the order they came, the oldest first and at most `capacity` of
them, and as the set they are looked up in. -/
structure Settled where
  capacity : Nat
  order : List UInt64
  members : Table UInt64 Unit

namespace Settled

def empty (capacity : Nat) : Settled := ⟨capacity, [], .empty⟩

def contains (s : Settled) (token : UInt64) : Bool := s.members.contains token

/-- The oldest tokens leave the queue and the set until there is room for the others. -/
def evict (capacity : Nat) (members : Table UInt64 Unit) : List UInt64 → Settled
  | [] => ⟨capacity, [], members⟩
  | oldest :: order =>
    if capacity < order.length + 1 then evict capacity (members.erase oldest) order
    else ⟨capacity, oldest :: order, members⟩

def insert (s : Settled) (token : UInt64) : Settled :=
  if s.capacity = 0 ∨ s.contains token then s
  else evict s.capacity (s.members.insert token ()) (s.order ++ [token])

def forget (s : Settled) (token : UInt64) : Settled :=
  if s.contains token then
    { s with order := s.order.filter (· ≠ token), members := s.members.erase token }
  else s

end Settled

structure Session where
  uid : UInt32
  channel : ChannelId
  registrations : List Filter
  pending : Table UInt64 InstanceId
  settled : Settled
  /-- A send to this session was refused; its owner is to tear it down. -/
  lost : Bool

namespace Session

def new (uid : UInt32) (channel : ChannelId) (settledCapacity : Nat) : Session :=
  ⟨uid, channel, [], .empty, .empty settledCapacity, false⟩

def Privileged (s : Session) : Prop := s.uid = 0

instance (s : Session) : Decidable s.Privileged := inferInstanceAs (Decidable (_ = _))

def interested (s : Session) (key : Filter) : Bool := s.registrations.any (·.selects key)

/-- Whether a session may subscribe: to status events only as root and for all users and rules, to
other events as root or for its own user. -/
def MayRegister (s : Session) (f : Filter) : Prop :=
  if f.subsystem = Filter.statusSubsystem then s.Privileged ∧ f.uid = 0 ∧ f.ruleId = 0
  else s.Privileged ∨ f.uid = s.uid

instance (s : Session) (f : Filter) : Decidable (s.MayRegister f) := by
  unfold MayRegister
  infer_instance

/-- The event is no longer pending and its token is remembered. -/
def settle (s : Session) (token : UInt64) : Session :=
  { s with pending := s.pending.erase token, settled := s.settled.insert token }

/-- The event is pending, and an earlier one with its token is forgotten. -/
def await (s : Session) (token : UInt64) (id : InstanceId) : Session :=
  { s with pending := s.pending.insert token id, settled := s.settled.forget token }

end Session

end Arbiter
