import Mathlib.Data.List.Forall2
import Arbiter.Proofs.Client.Tokens
import Arbiter.Proofs.Daemon.Grants

/-!
A client and the daemon, joined by a channel each way. Both channels keep their order and nothing is
known of their speed; a connection that fails is one on which nothing arrives any more. Whatever
else the daemon has to do, for other clients and for gates, happens in between.
-/

namespace Arbiter

structure Dialogue (γ : Type) where
  daemon : Daemon γ
  channel : ChannelId
  client : Client
  outgoing : List Message
  incoming : List Message
  handled : List (Daemon γ × Message)
  notices : List Notice
  issued : List UInt64

inductive DialogueMove (γ : Type) where
  | command (command : ClientCommand)
  | carry
  | hear
  | elsewhere (e : DaemonEvent γ)

def DaemonEvent.isFrameOf {γ : Type} (channel : ChannelId) : DaemonEvent γ → Bool
  | .frame channel' _ => channel' = channel
  | _ => false

namespace Dialogue

variable {γ : Type}

def withClient (s : Dialogue γ) (result : Except ClientError Reaction × Client) : Dialogue γ :=
  let reaction := result.1.toOption.getD .none
  { s with
    client := result.2
    outgoing := s.outgoing ++ reaction.send
    notices := s.notices ++ reaction.notices
    issued := s.issued ++ s.client.issued result.2 }

def withDaemon (s : Dialogue γ) (e : DaemonEvent γ) : Dialogue γ :=
  let d := s.daemon.step e
  { s with daemon := d, incoming := s.incoming ++ s.daemon.queuedSince d s.channel }

def move (s : Dialogue γ) : DialogueMove γ → Dialogue γ
  | .command command => s.withClient (s.client.command command)
  | .carry =>
    match s.outgoing with
    | [] => s
    | m :: rest => { s with outgoing := rest, handled := s.handled ++ [(s.daemon, m)] }.withDaemon
        (.frame s.channel m)
  | .hear =>
    match s.incoming with
    | [] => s
    | m :: rest => { s with incoming := rest }.withClient (s.client.receive m)
  | .elsewhere e => if e.isFrameOf s.channel then s else s.withDaemon e

def run (s : Dialogue γ) (moves : List (DialogueMove γ)) : Dialogue γ := moves.foldl move s

def start (d : Daemon γ) (uid seed : UInt32) : Dialogue γ :=
  { daemon := d
    channel := ⟨d.nextChannel⟩
    client := .fresh seed
    outgoing := []
    incoming := []
    handled := []
    notices := []
    issued := [] : Dialogue γ }.withDaemon (.accept uid)

end Dialogue

end Arbiter
