import Arbiter.Broker.Dispatch
import Arbiter.Broker.Resolution
import Arbiter.Client.Basic
import Arbiter.Settings.Basic

/-!
The daemon: connections with bounded outbound queues around one broker. A connection becomes a
session once its client has selected a version. Requests are answered by replies; a reply or an
event that finds its queue full costs the client its connection. A gated event is answered exactly
once, at once or when it is resolved. `γ` names the gates.
-/

namespace Arbiter

structure Connection where
  uid : UInt32
  session : Option SessionId
  /-- Messages accepted and not yet written, the oldest first. -/
  queue : List Message
  /-- False once writing to the client failed: nothing more is accepted. -/
  writable : Bool

abbrev Connections := Table ChannelId Connection

/-- Everything the daemon let out, in order; of the messages, those that a queue accepted. -/
structure DaemonLog (γ : Type) where
  queued : List Send
  verdicts : List (γ × Verdict)
  closed : List ChannelId

def DaemonLog.empty {γ : Type} : DaemonLog γ := ⟨[], [], []⟩

structure Daemon (γ : Type) where
  settings : DaemonSettings
  broker : Broker γ
  connections : Connections
  nextChannel : Nat
  running : Bool
  log : DaemonLog γ

inductive DaemonEvent (γ : Type) where
  | accept (uid : UInt32)
  | frame (channel : ChannelId) (m : Message)
  | hangUp (channel : ChannelId)
  | gate (gate : γ) (m : Message)
  /-- So many of the oldest messages were written out. -/
  | drain (channel : ChannelId) (count : Nat)
  | writeFailed (channel : ChannelId)
  /-- The order of closing and the gates that were never looked at. -/
  | shutdown (order : List ChannelId) (waiting : List γ)

/-- Queues of bounded depth; a connection that is gone or no longer written to takes nothing. -/
def queues (depth : Nat) : Transport Connections where
  send connections channel m :=
    match connections.get? channel with
    | none => (.error .closed, connections)
    | some c =>
      if !c.writable then (.error .closed, connections)
      else if c.queue.length < depth then
        (.ok (), connections.modify channel fun c => { c with queue := c.queue ++ [m] })
      else (.error .full, connections)

namespace Daemon

variable {γ : Type}

def new (settings : DaemonSettings) : Daemon γ :=
  ⟨settings, .new settings.settledTokenCapacity, .empty, 1, true, .empty⟩

def transport (d : Daemon γ) : Transport Connections := queues d.settings.outboundQueueDepth

def exchange (d : Daemon γ) : Exchange γ Connections := .start d.broker d.connections

/-- The daemon after the broker was at work. -/
def absorb (d : Daemon γ) (x : Exchange γ Connections) : Daemon γ :=
  { d with
    broker := x.broker
    connections := x.transport
    log := { d.log with
      queued := d.log.queued ++ x.sends.filter (·.result.isOk)
      verdicts := d.log.verdicts ++ x.completions.map fun c => (c.waiter, c.verdict) } }

def giveVerdict (d : Daemon γ) (gate : γ) (v : Verdict) : Daemon γ :=
  { d with log := { d.log with verdicts := d.log.verdicts ++ [(gate, v)] } }

/-- The connection goes first, so that nothing more is sent to it while its session ends. -/
def close (d : Daemon γ) (channel : ChannelId) : Daemon γ :=
  match d.connections.get? channel with
  | none => d
  | some c =>
    let d := { d with
      connections := d.connections.erase channel
      log := { d.log with closed := d.log.closed ++ [channel] } }
    match c.session with
    | none => d
    | some session => d.absorb (d.exchange.teardown d.transport session).2

def reply (d : Daemon γ) (channel : ChannelId) (token : UInt64) (answered : UInt32)
    (error : Int32) : Daemon γ :=
  match Message.reply token answered error with
  | .error _ => d
  | .ok m =>
    match d.exchange.send d.transport .reply channel m with
    | (.ok _, x) => d.absorb x
    | (.error _, x) => (d.absorb x).close channel

def accept (d : Daemon γ) (uid : UInt32) : Daemon γ :=
  let channel : ChannelId := ⟨d.nextChannel⟩
  let d := { d with
    connections := d.connections.insert channel ⟨uid, none, [], true⟩
    nextChannel := d.nextChannel + 1 }
  match Message.hello protocolVersion protocolMinVersion with
  | .error _ => d
  | .ok m => d.absorb (d.exchange.send d.transport .reply channel m).2

def openSession (d : Daemon γ) (channel : ChannelId) (uid : UInt32) : Daemon γ :=
  let (session, broker) := d.broker.openSession uid channel
  { d with
    broker
    connections := d.connections.modify channel fun c => { c with session := some session } }

/-- Before a session there is only the selection of a version; all else ends the connection. -/
def handshake (d : Daemon γ) (channel : ChannelId) (uid : UInt32) (content : Content)
    (token : UInt64) (op : UInt32) : Daemon γ :=
  match content with
  | .versel token version =>
    if protocolMinVersion ≤ version ∧ version ≤ protocolVersion then
      (d.openSession channel uid).reply channel token op Errno.ok
    else (d.reply channel token op Errno.protocolError).close channel
  | _ => (d.reply channel token op Errno.protocolError).close channel

/-- Runs a request that changes registrations and replies with how it went. -/
def change (d : Daemon γ) (channel : ChannelId) (token : UInt64) (op : UInt32)
    (result : Except Refusal (Broker γ)) : Daemon γ :=
  match result with
  | .ok broker => { d with broker }.reply channel token op Errno.ok
  | .error e => d.reply channel token op e.errno

def request (d : Daemon γ) (channel : ChannelId) (session : SessionId) (content : Content)
    (token : UInt64) (op : UInt32) : Daemon γ :=
  match content with
  | .register r => d.change channel r.token op (d.broker.register session r.filter)
  | .unregister r => d.change channel r.token op (d.broker.unregister session r.filter)
  | .answer token verdict delegate =>
    match d.exchange.answer d.transport session token verdict delegate with
    | (.ok _, x) => d.absorb x
    | (.error e, x) => (d.absorb x).reply channel token op e.errno
  | .close token => (d.reply channel token op Errno.ok).close channel
  | _ => d.reply channel token op Errno.invalidArgument

/-- A frame that fails its check, or from a connection already gone, is passed over. -/
def handleFrame (d : Daemon γ) (channel : ChannelId) (m : Message) : Daemon γ :=
  match d.connections.get? channel with
  | none => d
  | some c =>
    match m.check with
    | .error _ => d
    | .ok _ =>
      match m.decode with
      | .error _ => d
      | .ok content =>
        let op := m.opcode?.getD 0
        let token := m.token?.getD 0
        match c.session with
        | none => d.handshake channel c.uid content token op
        | some session => d.request channel session content token op

/-- An event nobody took: nobody is left to wait for. -/
def answerAtOnce (d : Daemon γ) (gate : γ) (head : HeadId) (kind : Option EventKind) : Daemon γ :=
  let verdict := if kind = some .ask then d.settings.verdict else .allow
  let d := match d.broker.abandon head with
    | .ok (_, broker) => { d with broker }
    | .error _ => d
  d.giveVerdict gate verdict

def handleGate (d : Daemon γ) (gate : γ) (m : Message) : Daemon γ :=
  match d.broker.createHead m none with
  | .error _ => d.giveVerdict gate .noDecision
  | .ok (head, broker) =>
    let kind := broker.headKind? head
    let d := { d with broker }
    let (result, x) := d.exchange.dispatchAll d.transport head
    let d := d.absorb x
    let delivered := match result with
      | .ok n => n
      | .error _ => 0
    if kind = some .ask ∧ 0 < delivered then
      match d.broker.setWaiter head gate with
      | .ok broker => { d with broker }
      | .error _ => d
    else d.answerAtOnce gate head kind

/-- A lost session ends with its connection. -/
def reap (d : Daemon γ) (session : SessionId) : Daemon γ :=
  match d.connections.entries.find? (·.2.session = some session) with
  | some (channel, _) => d.close channel
  | none => d.absorb (d.exchange.teardown d.transport session).2

/-- Ending lost sessions may lose more of them; each round ends all that are lost when it begins. -/
def reapRounds : Nat → Daemon γ → Daemon γ
  | 0, d => d
  | rounds + 1, d =>
    match d.broker.lostSessions with
    | [] => d
    | lost => reapRounds rounds (lost.foldl reap d)

/-- Every round ends a session, so there are no more rounds than sessions. -/
def reapLost (d : Daemon γ) : Daemon γ := reapRounds d.broker.sessions.size d

def drain (d : Daemon γ) (channel : ChannelId) (count : Nat) : Daemon γ :=
  { d with connections := d.connections.modify channel fun c =>
    { c with queue := c.queue.drop count } }

/-- What was queued is lost; the connection stays until its client hangs up or a send to it is
refused. -/
def writeFailed (d : Daemon γ) (channel : ChannelId) : Daemon γ :=
  { d with connections := d.connections.modify channel fun c =>
    { c with queue := [], writable := false } }

def shutdown (d : Daemon γ) (order : List ChannelId) (waiting : List γ) : Daemon γ :=
  let d := order.foldl close d
  let d := waiting.foldl (fun d gate => d.giveVerdict gate .noDecision) d
  { d with running := false }

/-- One event from start to end. A daemon that was shut down takes no more. -/
def step (d : Daemon γ) (e : DaemonEvent γ) : Daemon γ :=
  if !d.running then d
  else
    match e with
    | .accept uid => (d.accept uid).reapLost
    | .frame channel m => (d.handleFrame channel m).reapLost
    | .hangUp channel => (d.close channel).reapLost
    | .gate gate m => (d.handleGate gate m).reapLost
    | .drain channel count => d.drain channel count
    | .writeFailed channel => d.writeFailed channel
    | .shutdown order waiting => d.shutdown order waiting

def run (d : Daemon γ) (events : List (DaemonEvent γ)) : Daemon γ := events.foldl step d

end Daemon

end Arbiter
