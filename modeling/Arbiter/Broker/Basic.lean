import Arbiter.Broker.Head
import Arbiter.Broker.Refusal
import Arbiter.Message.Decode

/-!
The broker's state and the operations on it that send nothing. Sessions, heads and instances take
their ids from one counter. A refused operation leaves the state as it is.
-/

namespace Arbiter

structure Broker (ω : Type) where
  sessions : Table SessionId Session
  heads : Table HeadId (Head ω)
  instances : Table InstanceId Instance
  nextId : Nat
  settledCapacity : Nat

namespace Broker

variable {ω : Type}

def defaultSettledCapacity : Nat := 1024

def new (settledCapacity : Nat) : Broker ω := ⟨.empty, .empty, .empty, 1, settledCapacity⟩

instance : Inhabited (Broker ω) := ⟨new defaultSettledCapacity⟩

def modifySession (b : Broker ω) (id : SessionId) (f : Session → Session) : Broker ω :=
  { b with sessions := b.sessions.modify id f }

def modifyHead (b : Broker ω) (id : HeadId) (f : Head ω → Head ω) : Broker ω :=
  { b with heads := b.heads.modify id f }

def openSession (b : Broker ω) (uid : UInt32) (channel : ChannelId) : SessionId × Broker ω :=
  let id : SessionId := ⟨b.nextId⟩
  (id, { b with
    sessions := b.sessions.insert id (.new uid channel b.settledCapacity)
    nextId := b.nextId + 1 })

def register (b : Broker ω) (id : SessionId) (f : Filter) : Except Refusal (Broker ω) :=
  match b.sessions.get? id with
  | none => .error (.unknownSession id)
  | some s =>
    if s.MayRegister f then
      .ok (b.modifySession id fun s => { s with registrations := s.registrations ++ [f] })
    else .error (.permissionDenied s.uid f)

/-- One registration equal to the filter is dropped, the earliest. -/
def unregister (b : Broker ω) (id : SessionId) (f : Filter) : Except Refusal (Broker ω) :=
  match b.sessions.get? id with
  | none => .error (.unknownSession id)
  | some s =>
    if f ∈ s.registrations then
      .ok (b.modifySession id fun s => { s with registrations := s.registrations.erase f })
    else .error (.noSuchRegistration f)

def createHead (b : Broker ω) (m : Message) (waiter : Option ω) :
    Except Refusal (HeadId × Broker ω) :=
  match m.decode with
  | .error fault => .error (.malformed fault)
  | .ok (.event e) =>
    let id : HeadId := ⟨b.nextId⟩
    .ok (id, { b with heads := b.heads.insert id (.new m e waiter), nextId := b.nextId + 1 })
  | .ok _ => .error (.notAnEvent (Opcode.nameOfCode (m.opcode?.getD 0)))

def setWaiter (b : Broker ω) (id : HeadId) (waiter : ω) : Except Refusal (Broker ω) :=
  if b.heads.contains id then .ok (b.modifyHead id fun h => { h with waiter := some waiter })
  else .error (.unknownHead id)

def headKind? (b : Broker ω) (id : HeadId) : Option EventKind := (b.heads.get? id).map Head.kind

/-- A head that no session holds is dropped, and nobody is told. -/
def abandon (b : Broker ω) (id : HeadId) : Except Refusal (Message × Broker ω) :=
  match b.heads.get? id with
  | none => .error (.unknownHead id)
  | some h =>
    if h.instances.isEmpty then .ok (h.message, { b with heads := b.heads.erase id })
    else .error (.headInUse id)

/-- A session is given its copy of an event. -/
def addInstance (b : Broker ω) (session : SessionId) (head : HeadId) (token : UInt64) : Broker ω :=
  let id : InstanceId := ⟨b.nextId⟩
  { b with
    instances := b.instances.insert id (.new token session head)
    sessions := b.sessions.modify session (·.await token id)
    heads := b.heads.modify head fun h =>
      { h with instances := h.instances ++ [id], live := h.live + 1 }
    nextId := b.nextId + 1 }

def markLost (b : Broker ω) (id : SessionId) : Broker ω :=
  b.modifySession id fun s => { s with lost := true }

def lostSessions (b : Broker ω) : List SessionId :=
  (b.sessions.entries.filter (·.2.lost)).map Prod.fst

def reachableSessions (b : Broker ω) : List SessionId :=
  (b.sessions.entries.filter (!·.2.lost)).map Prod.fst

def instanceState? (b : Broker ω) (id : SessionId) (token : UInt64) : Option InstanceState := do
  let s ← b.sessions.get? id
  let i ← b.instances.get? (← s.pending.get? token)
  return i.state

end Broker

end Arbiter
