import Arbiter.Daemon.Basic
import Arbiter.Frame

/-!
The daemon with the byte streams of its clients. Bytes of a connection become events as soon as they
make a frame or can make none, and all outbound queues are written out after each event.
-/

namespace Arbiter

structure Hub (γ : Type) where
  daemon : Daemon γ
  unread : Table ChannelId Bytes

namespace Hub

variable {γ : Type}

def new (settings : DaemonSettings) : Hub γ := ⟨.new settings, .empty⟩

def drainAll (d : Daemon γ) : Daemon γ :=
  d.run (d.connections.entries.map fun e => .drain e.1 e.2.queue.length)

def event (h : Hub γ) (e : DaemonEvent γ) : Hub γ :=
  { h with daemon := drainAll (h.daemon.step e) }

/-- The channel of the next connection, and the hub with it accepted. -/
def connect (h : Hub γ) (uid : UInt32) : ChannelId × Hub γ :=
  (⟨h.daemon.nextChannel⟩, h.event (.accept uid))

def receive (h : Hub γ) (channel : ChannelId) (bytes : Bytes) : Hub γ :=
  let limit := h.daemon.settings.maxMessageLen
  let (frames, left) := Frame.split limit ((h.unread.get? channel).getD [] ++ bytes)
  let h := frames.foldl (fun h m => h.event (.frame channel m)) h
  match Frame.read limit left with
  | .badLength _ _ => { h with unread := h.unread.erase channel }.event (.hangUp channel)
  | _ => { h with unread := h.unread.insert channel left }

def hangUp (h : Hub γ) (channel : ChannelId) : Hub γ :=
  { h with unread := h.unread.erase channel }.event (.hangUp channel)

def gate (h : Hub γ) (gate : γ) (m : Message) : Hub γ := h.event (.gate gate m)

/-- Connections are closed in the order in which they were opened. -/
def stop (h : Hub γ) : Hub γ := h.event (.shutdown h.daemon.connections.keys [])

def isOpen (h : Hub γ) (channel : ChannelId) : Bool := h.daemon.connections.contains channel

/-- What was let out since the log was last taken. -/
def takeLog (h : Hub γ) : DaemonLog γ × Hub γ :=
  (h.daemon.log, { h with daemon := { h.daemon with log := .empty } })

def received (log : DaemonLog γ) (channel : ChannelId) : List Message :=
  (log.queued.filter (·.channel = channel)).map Send.message

/-- A client that reads once before each of its writes and once after the last. What it was sent
waits to be read; a read that finds nothing, as every read does after the end of the connection, is
no message. -/
def talk (channel : ChannelId) (h : Hub γ) (heard : List Message) :
    List Bytes → List (Option Message)
  | [] => [heard.head?]
  | bytes :: rest =>
    let (log, h) := (h.receive channel bytes).takeLog
    heard.head? :: talk channel h (heard.tail ++ received log channel) rest

/-- What a client of its own hears from a hub. -/
def converse (h : Hub γ) (uid : UInt32) (sends : List Bytes) : List (Option Message) :=
  let (channel, h) := h.connect uid
  let (log, h) := h.takeLog
  talk channel h (received log channel) sends

end Hub

end Arbiter
