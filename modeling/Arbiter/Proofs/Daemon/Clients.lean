import Arbiter.Daemon.Basic
import Arbiter.Proofs.Broker.Carriage
import Arbiter.Proofs.Broker.Attendance

/-!
Clients on both sides of the daemon. The broker knows them as sessions with a user and a channel,
the table of connections as channels with a user and a session; between any two functions of the
daemon the two tell the same.
-/

namespace Arbiter

def Connection.client (c : Connection) : UInt32 × Option SessionId := (c.uid, c.session)

theorem queues_client (depth : Nat) (connections : Connections) (channel channel' : ChannelId)
    (m : Message) : (((queues depth).send connections channel m).2.get? channel').map
      Connection.client = (connections.get? channel').map Connection.client := by
  simp only [queues]
  split
  · rfl
  · split
    · rfl
    · split
      · exact Table.map_get?_modify _ _ _ fun _ => rfl
      · rfl

theorem queues_send_eq_ok {depth : Nat} {connections : Connections} {channel : ChannelId}
    {m : Message} : ((queues depth).send connections channel m).1 = .ok () ↔
    ∃ c, connections.get? channel = some c ∧ c.writable = true ∧ c.queue.length < depth := by
  simp only [queues]
  cases hc : connections.get? channel with
  | none => simp
  | some c =>
    by_cases hopen : c.writable = true <;> by_cases hroom : c.queue.length < depth <;>
      simp [hopen, hroom]

theorem carries_client {depth : Nat} {connections connections' : Connections}
    (h : (queues depth).Carries connections connections') (channel : ChannelId) :
    (connections'.get? channel).map Connection.client =
      (connections.get? channel).map Connection.client := by
  induction h with
  | refl => rfl
  | tail _ hsend ih =>
    obtain ⟨channel', m, rfl⟩ := hsend
    rw [queues_client, ih]

namespace Daemon

variable {γ : Type} {d d' : Daemon γ}

/-- A connection as the daemon sees it: its user, and its session once it has one. -/
def client (d : Daemon γ) (channel : ChannelId) : Option (UInt32 × Option SessionId) :=
  (d.connections.get? channel).map Connection.client

def member (d : Daemon γ) (s : SessionId) : Option (UInt32 × ChannelId) :=
  (d.broker.sessions.get? s).map fun sess => (sess.uid, sess.channel)

structure Linked (d : Daemon γ) : Prop where
  linked {s uid channel} : d.member s = some (uid, channel) ↔ d.client channel = some (uid, some s)
  issued {channel} : d.client channel ≠ none → channel.number < d.nextChannel

theorem Linked.congr (hl : Linked d) (hmember : ∀ s, d'.member s = d.member s)
    (hclient : ∀ channel, d'.client channel = d.client channel)
    (hnext : d'.nextChannel = d.nextChannel) : Linked d' where
  linked {s uid channel} := by
    rw [hmember, hclient]
    exact hl.linked
  issued {channel} h := by
    rw [hclient] at h
    rw [hnext]
    exact hl.issued h

theorem member_eq (d : Daemon γ) (s : SessionId) : d.member s =
    ((d.broker.sessions.get? s).map Session.profile).map fun p => (p.1, p.2.1) := by
  rw [Option.map_map]
  rfl

theorem member_congr {s : SessionId} (h : (d'.broker.sessions.get? s).map Session.profile =
    (d.broker.sessions.get? s).map Session.profile) : d'.member s = d.member s := by
  rw [member_eq, h, member_eq]

theorem absorb_client {x : Exchange γ Connections}
    (h : d.transport.Carries d.connections x.transport) (channel : ChannelId) :
    (d.absorb x).client channel = d.client channel :=
  carries_client h channel

def operate (d : Daemon γ) (op : Operation γ) : Daemon γ :=
  d.absorb (d.exchange.perform d.transport op).2

theorem operate_client (op : Operation γ) (channel : ChannelId) :
    (d.operate op).client channel = d.client channel :=
  absorb_client (Exchange.perform_carries d.transport d.exchange op) channel

theorem operate_member (hb : d.broker.Coherent) {op : Operation γ}
    (hop : op.concernsSessions = false) (s : SessionId) :
    (d.operate op).member s = d.member s := by
  have hchange := Exchange.perform_profile (t := d.transport) (x := d.exchange) hb op s
  rw [member_eq, member_eq]
  generalize hprofile : ((d.operate op).broker.sessions.get? s).map Session.profile = profile
  have hsame : ((d.exchange.perform d.transport op).2.broker.sessions.get? s).map
    Session.profile = profile := hprofile
  rw [hsame] at hchange
  cases hchange with
  | same => rfl
  | opened hopen =>
    subst hopen
    cases hop
  | registered _ hs =>
    have hs : d.broker.sessions.get? s = some _ := hs
    rw [hs]
    rfl
  | tornDown htorn =>
    subst htorn
    cases hop

theorem teardown_member (hb : d.broker.Coherent) (s₀ s : SessionId) :
    (d.operate (.teardown s₀)).member s = if s = s₀ then none else d.member s := by
  have hchange := Exchange.perform_profile (t := d.transport) (x := d.exchange) hb
    (.teardown s₀) s
  rw [member_eq]
  generalize hprofile :
    ((d.operate (.teardown s₀)).broker.sessions.get? s).map Session.profile = profile
  have hsame : ((d.exchange.perform d.transport (.teardown s₀)).2.broker.sessions.get? s).map
    Session.profile = profile := hprofile
  rw [hsame] at hchange
  cases hchange with
  | same _ htorn =>
    split
    · subst s
      cases hs : d.broker.sessions.get? s₀ with
      | none =>
        have hs : d.exchange.broker.sessions.get? s₀ = none := hs
        rw [hs]
        rfl
      | some sess =>
        -- A session that is there is torn down, and the response says so.
        refine absurd ?_ (htorn ⟨sess.registrations.length, sess.pending.size,
          (Exchange.closing d.broker s₀ sess).ready.length⟩ rfl)
        rw [Exchange.perform, Exchange.teardown_of_open (x := d.exchange) hb hs]
        rfl
    · exact (member_eq d s).symm
  | opened hop => cases hop
  | registered hop =>
    obtain ⟨g, hop | hop⟩ := hop <;> cases hop
  | tornDown hop => rw [if_pos (Operation.teardown.inj hop).symm, Option.map_none]

theorem Linked.operate (hl : Linked d) (hb : d.broker.Coherent) {op : Operation γ}
    (hop : op.concernsSessions = false) : Linked (d.operate op) :=
  hl.congr (operate_member hb hop) (operate_client op) rfl

theorem send_client (purpose : Purpose) (channel channel' : ChannelId) (m : Message) :
    (d.absorb (d.exchange.send d.transport purpose channel m).2).client channel' =
      d.client channel' :=
  absorb_client (Exchange.send_carries d.transport d.exchange purpose channel m) channel'

theorem Linked.send (hl : Linked d) (purpose : Purpose) (channel : ChannelId) (m : Message) :
    Linked (d.absorb (d.exchange.send d.transport purpose channel m).2) :=
  hl.congr (fun _ => rfl) (send_client purpose channel · m) rfl

def disconnect (d : Daemon γ) (channel : ChannelId) : Daemon γ :=
  { d with
    connections := d.connections.erase channel
    log := { d.log with closed := d.log.closed ++ [channel] } }

theorem disconnect_client (d : Daemon γ) (channel channel' : ChannelId) :
    (d.disconnect channel).client channel' =
      if channel' = channel then none else d.client channel' := by
  unfold client disconnect
  rw [Table.get?_erase]
  split <;> rfl

section Close

variable {channel : ChannelId} {c : Connection}

theorem close_of_absent (hc : d.connections.get? channel = none) : d.close channel = d := by
  unfold close
  rw [hc]

theorem close_of_newcomer (hc : d.connections.get? channel = some c) (hs : c.session = none) :
    d.close channel = d.disconnect channel := by
  simp only [close, hc, hs]
  rfl

theorem close_of_member {s : SessionId} (hc : d.connections.get? channel = some c)
    (hs : c.session = some s) :
    d.close channel = (d.disconnect channel).operate (.teardown s) := by
  simp only [close, hc, hs]
  rfl

theorem close_client (d : Daemon γ) (channel channel' : ChannelId) :
    (d.close channel).client channel' =
      if channel' = channel then none else d.client channel' := by
  cases hc : d.connections.get? channel with
  | none =>
    rw [close_of_absent hc]
    split
    · rename_i hsame
      rw [hsame, client, hc]
      rfl
    · rfl
  | some c =>
    cases hsession : c.session with
    | none => rw [close_of_newcomer hc hsession, disconnect_client]
    | some s => rw [close_of_member hc hsession, operate_client, disconnect_client]

theorem close_member (hb : d.broker.Coherent) (hc : d.connections.get? channel = some c)
    (s : SessionId) : (d.close channel).member s =
      if c.session = some s then none else d.member s := by
  cases hsession : c.session with
  | none =>
    rw [close_of_newcomer hc hsession]
    exact (if_neg (by simp)).symm
  | some s₀ =>
    rw [close_of_member hc hsession, teardown_member (d := d.disconnect channel) hb]
    by_cases hs : s = s₀
    · rw [if_pos hs, if_pos (congrArg some hs.symm)]
    · rw [if_neg hs, if_neg fun heq => hs (Option.some.inj heq).symm]
      rfl

theorem close_nextChannel (d : Daemon γ) (channel : ChannelId) :
    (d.close channel).nextChannel = d.nextChannel := by
  unfold close
  split
  · rfl
  · simp only
    split <;> rfl

theorem Linked.close (hl : Linked d) (hb : d.broker.Coherent) (channel : ChannelId) :
    Linked (d.close channel) := by
  cases hc : d.connections.get? channel with
  | none =>
    rw [close_of_absent hc]
    exact hl
  | some c =>
    have hthis : d.client channel = some (c.uid, c.session) := by
      rw [client, hc]
      rfl
    constructor
    · intro s uid channel'
      rw [close_client, close_member hb hc]
      by_cases hchannel : channel' = channel
      · -- Of this channel no session is left: the one it had has ended.
        subst channel'
        simp only [↓reduceIte, reduceCtorEq, iff_false]
        split
        · simp
        · rename_i hs
          intro hmember'
          have hclient' := hl.linked.mp hmember'
          rw [hthis, Option.some.injEq, Prod.mk.injEq] at hclient'
          exact hs hclient'.2
      · rw [if_neg hchannel, ← hl.linked]
        split
        · rename_i hs
          rw [hs] at hthis
          have hmember' := hl.linked.mpr hthis
          rw [hmember', Option.some.injEq, Prod.mk.injEq]
          simp only [reduceCtorEq, false_iff, not_and]
          exact fun _ heq => hchannel heq.symm
        · rfl
    · intro channel' h
      rw [close_client] at h
      rw [close_nextChannel]
      refine hl.issued fun hnone => h ?_
      rw [hnone, ite_self]

end Close

def connect (d : Daemon γ) (uid : UInt32) : Daemon γ :=
  { d with
    connections := d.connections.insert ⟨d.nextChannel⟩ ⟨uid, none, [], true⟩
    nextChannel := d.nextChannel + 1 }

theorem connect_client (d : Daemon γ) (uid : UInt32) (channel : ChannelId) :
    (d.connect uid).client channel =
      if channel = ⟨d.nextChannel⟩ then some (uid, none) else d.client channel := by
  refine (congrArg (Option.map _) (Table.get?_insert ..)).trans ?_
  split <;> rfl

theorem Linked.connect (hl : Linked d) (uid : UInt32) : Linked (d.connect uid) := by
  constructor
  · intro s uid' channel
    refine hl.linked.trans ?_
    rw [connect_client]
    split
    · rename_i hchannel
      simp only [Option.some.injEq, Prod.mk.injEq, reduceCtorEq, and_false, iff_false]
      intro h
      have hlt := hl.issued (h ▸ Option.some_ne_none _)
      rw [hchannel] at hlt
      exact Nat.lt_irrefl _ hlt
    · rfl
  · intro channel h
    rw [connect_client] at h
    split at h
    · rename_i hchannel
      rw [hchannel]
      exact Nat.lt_succ_self _
    · exact Nat.lt_succ_of_lt (hl.issued h)

theorem openSession_client {uid : UInt32} {channel : ChannelId}
    (hchannel : d.client channel = some (uid, none)) (channel' : ChannelId) :
    (d.openSession channel uid).client channel' =
      if channel' = channel then some (uid, some ⟨d.broker.nextId⟩) else d.client channel' := by
  obtain ⟨c, hc, hclient⟩ := Option.map_eq_some_iff.mp hchannel
  have huid : c.uid = uid := congrArg Prod.fst hclient
  refine (congrArg (Option.map _) (Table.get?_modify_of_get? hc ..)).trans ?_
  split
  · rw [← huid]
    rfl
  · rfl

theorem Linked.openSession (hl : Linked d) (hb : d.broker.Coherent) {uid : UInt32}
    {channel : ChannelId} (hchannel : d.client channel = some (uid, none)) :
    Linked (d.openSession channel uid) := by
  have hnew : d.member ⟨d.broker.nextId⟩ = none := by
    rw [member, hb.session_fresh (Nat.le_refl _)]
    rfl
  have hmember (s : SessionId) : (d.openSession channel uid).member s =
      if s = ⟨d.broker.nextId⟩ then some (uid, channel) else d.member s := by
    refine (congrArg (Option.map _) (Table.get?_insert ..)).trans ?_
    split <;> rfl
  have hclient := openSession_client hchannel
  constructor
  · intro s uid' channel'
    rw [hmember, hclient]
    split
    · rename_i hs
      subst s
      split
      · rename_i hsame
        simp [hsame]
      · rename_i hne
        rw [← hl.linked, hnew]
        simp only [Option.some.injEq, Prod.mk.injEq, reduceCtorEq, iff_false, not_and]
        exact fun _ heq => hne heq.symm
    · rename_i hs
      rw [hl.linked]
      split
      · rename_i hsame
        rw [hsame, hchannel]
        simp only [Option.some.injEq, Prod.mk.injEq, reduceCtorEq, and_false, false_iff, not_and]
        exact fun _ heq => hs heq.symm
      · rfl
  · intro channel' h
    refine hl.issued fun hnone => h ?_
    rw [hclient, if_neg, hnone]
    rintro rfl
    rw [hchannel] at hnone
    cases hnone

end Daemon

end Arbiter
