import Arbiter.Proofs.Daemon.Reaping

/-!
What the daemon keeps while it is at work: the tables of the broker agree, the two sides know the
same clients, and the books are in order. It is restored by every function of the daemon, also by
those that close a connection in the middle of a request; and once lost sessions are reaped, none is
left.
-/

namespace Arbiter

namespace Daemon

open Exchange

variable {γ : Type} {d : Daemon γ} {rs : List (GateRequest γ)}

/-- A daemon that serves, after it was asked the requests. -/
structure Sound (rs : List (GateRequest γ)) (d : Daemon γ) : Prop where
  coherent : d.broker.Coherent
  linked : Linked d
  ledger : Ledger rs [] d.broker d.log
  running : d.running = true

theorem linked_new (settings : DaemonSettings) : Linked (new settings : Daemon γ) where
  linked := by
    intro s uid channel
    simp [member, client, new, Broker.new]
  issued h := absurd rfl h

theorem sound_new (settings : DaemonSettings) : Sound [] (new settings : Daemon γ) where
  coherent := Broker.coherent_new _
  linked := linked_new settings
  ledger := by
    constructor
    · exact .empty
    all_goals simp [new, Broker.new]
  running := rfl

theorem client_of_get? {channel : ChannelId} {c : Connection}
    (hc : d.connections.get? channel = some c) : d.client channel = some (c.uid, c.session) := by
  rw [client, hc]
  rfl

theorem get?_of_client {channel : ChannelId} {uid : UInt32} {session : Option SessionId}
    (h : d.client channel = some (uid, session)) :
    ∃ c, d.connections.get? channel = some c ∧ c.uid = uid ∧ c.session = session := by
  obtain ⟨c, hc, hclient⟩ := Option.map_eq_some_iff.mp h
  obtain ⟨huid, hsession⟩ := Prod.mk.injEq .. ▸ hclient
  exact ⟨c, hc, huid, hsession⟩

theorem Linked.reregister (hl : Linked d) (s : SessionId) (regs : Session → List Filter) :
    Linked { d with broker := d.broker.reregister s regs } :=
  hl.congr (fun _ => Table.map_get?_modify _ _ _ fun _ => rfl) (fun _ => rfl) rfl

theorem Linked.reap (hl : Linked d) (hb : d.broker.Coherent) (s : SessionId) :
    Linked (d.reap s) := by
  unfold Daemon.reap
  split
  · exact hl.close hb _
  · rename_i hfind
    have hnone : d.member s = none := by
      cases hm : d.member s with
      | none => rfl
      | some client =>
        obtain ⟨c, hc, -, hsession⟩ := get?_of_client (hl.linked.mp hm)
        have hnot := List.find?_eq_none.mp hfind _ (Table.get?_eq_some.mp hc)
        exact absurd hsession (by simpa using hnot)
    show Linked (d.operate (.teardown s))
    refine hl.congr (fun s' => (teardown_member hb s s').trans ?_) (operate_client _) rfl
    split
    · rename_i hsame
      rw [hsame, hnone]
    · rfl

namespace Sound

theorem operate (hs : Sound rs d) {op : Operation γ} (hop : settles op = true)
    (hstay : op.concernsSessions = false) : Sound rs (d.operate op) where
  coherent := coherent_perform hs.coherent op
  linked := hs.linked.operate hs.coherent hstay
  ledger := ledger_operate hs.coherent hs.ledger hop
  running := hs.running

theorem disconnect_ledger (hs : Sound rs d) (channel : ChannelId) :
    Ledger rs [] (d.disconnect channel).broker (d.disconnect channel).log := by
  have hledger := hs.ledger.extend [] (d.log.closed ++ [channel]) (Nat.le_refl _) (fun _ => rfl)
    hs.ledger.busy (by simp)
  rw [List.append_nil] at hledger
  exact hledger

theorem close (hs : Sound rs d) (channel : ChannelId) : Sound rs (d.close channel) := by
  have hlinked := hs.linked.close hs.coherent channel
  have hledger := hs.disconnect_ledger channel
  cases hc : d.connections.get? channel with
  | none => rwa [close_of_absent hc]
  | some c =>
    cases hsession : c.session with
    | none =>
      rw [close_of_newcomer hc hsession] at hlinked ⊢
      exact ⟨hs.coherent, hlinked, hledger, hs.running⟩
    | some s =>
      rw [close_of_member hc hsession] at hlinked ⊢
      exact ⟨coherent_perform (x := (d.disconnect channel).exchange) hs.coherent _, hlinked,
        ledger_operate (d := d.disconnect channel) hs.coherent hledger rfl, hs.running⟩

theorem send (hs : Sound rs d) (channel : ChannelId) {m : Message}
    (hm : ∀ token you uid v, m.decode ≠ .ok (.outcome token you uid v)) :
    Sound rs (d.absorb (d.exchange.send d.transport .reply channel m).2) where
  coherent := hs.coherent
  linked := hs.linked.send .reply channel m
  ledger := by
    have hlog : (d.absorb (d.exchange.send d.transport .reply channel m).2).log = { d.log with
        queued := d.log.queued ++ (d.exchange.send d.transport .reply channel m).2.sends.filter
          (·.result.isOk) } := by
      rw [absorb_log]
      simp [Exchange.send, exchange, start]
    rw [hlog]
    refine hs.ledger.extend _ d.log.closed (Nat.le_refl _) (fun _ => rfl) hs.ledger.busy
      fun send hsend => ?_
    rw [send_sends] at hsend
    obtain rfl := List.mem_singleton.mp (List.mem_of_mem_filter hsend)
    exact ⟨fun _ _ => Purpose.noConfusion, hm⟩
  running := hs.running

theorem accept (hs : Sound rs d) (uid : UInt32) : Sound rs (d.accept uid) := by
  have hconnected : Sound rs (d.connect uid) :=
    ⟨hs.coherent, hs.linked.connect uid, hs.ledger, hs.running⟩
  unfold Daemon.accept
  split
  · exact hconnected
  · rename_i m hm
    refine hconnected.send _ fun token you uid v => ?_
    rw [Message.decode_hello hm]
    exact fun heq => Content.noConfusion (Except.ok.inj heq)

theorem openSession (hs : Sound rs d) {channel : ChannelId} {uid : UInt32}
    (hchannel : d.client channel = some (uid, none)) : Sound rs (d.openSession channel uid) where
  coherent := hs.coherent.openSession uid channel
  linked := hs.linked.openSession hs.coherent hchannel
  ledger := hs.ledger.of_heads rfl (Nat.le_succ _)
  running := hs.running

theorem reregister (hs : Sound rs d) (s : SessionId) (regs : Session → List Filter) :
    Sound rs { d with broker := d.broker.reregister s regs } where
  coherent := hs.coherent.modifySession s fun _ => rfl
  linked := hs.linked.reregister s regs
  ledger := hs.ledger.of_heads rfl (Nat.le_refl _)
  running := hs.running

theorem connections (hs : Sound rs d) (channel : ChannelId) {f : Connection → Connection}
    (hf : ∀ c, (f c).client = c.client) :
    Sound rs { d with connections := d.connections.modify channel f } where
  coherent := hs.coherent
  linked := hs.linked.congr (fun _ => rfl) (fun _ => Table.map_get?_modify _ _ _ hf) rfl
  ledger := hs.ledger
  running := hs.running

theorem reply (hs : Sound rs d) (channel : ChannelId) (token : UInt64) (answered : UInt32)
    (error : Int32) : Sound rs (d.reply channel token answered error) := by
  unfold Daemon.reply
  cases hm : Message.reply token answered error with
  | error fault => exact hs
  | ok m =>
    have hsent := hs.send channel (m := m) fun token' you uid v => by
      rw [Message.decode_reply hm]
      exact fun heq => Content.noConfusion (Except.ok.inj heq)
    simp only
    split <;> rename_i heq <;> rw [heq] at hsent
    · exact hsent
    · exact hsent.close channel

theorem handshake (hs : Sound rs d) {channel : ChannelId} {uid : UInt32}
    (hchannel : d.client channel = some (uid, none)) (content : Content) (token : UInt64)
    (op : UInt32) : Sound rs (d.handshake channel uid content token op) := by
  unfold Daemon.handshake
  split
  · split
    · exact (hs.openSession hchannel).reply ..
    · exact (hs.reply ..).close channel
  · exact (hs.reply ..).close channel

theorem change (hs : Sound rs d) (channel : ChannelId) (token : UInt64) (op : UInt32)
    {result : Except Refusal (Broker γ)}
    (hresult : ∀ b, result = .ok b → Sound rs { d with broker := b }) :
    Sound rs (d.change channel token op result) := by
  unfold Daemon.change
  split
  · exact (hresult _ rfl).reply ..
  · exact hs.reply ..

theorem request (hs : Sound rs d) (channel : ChannelId) (session : SessionId) (content : Content)
    (token : UInt64) (op : UInt32) : Sound rs (d.request channel session content token op) := by
  unfold Daemon.request
  split
  · refine hs.change channel _ op fun b hb => ?_
    obtain ⟨regs, rfl⟩ := Broker.register_eq hb
    exact hs.reregister session regs
  · refine hs.change channel _ op fun b hb => ?_
    obtain ⟨regs, rfl⟩ := Broker.unregister_eq hb
    exact hs.reregister session regs
  · rename_i token verdict delegate
    have hanswered : Sound rs (d.operate (.answer session token verdict delegate)) :=
      hs.operate rfl rfl
    unfold Daemon.operate at hanswered
    simp only [perform] at hanswered
    split <;> rename_i heq <;> rw [heq] at hanswered
    · exact hanswered
    · exact hanswered.reply ..
  · exact (hs.reply ..).close channel
  · exact hs.reply ..

theorem handleFrame (hs : Sound rs d) (channel : ChannelId) (m : Message) :
    Sound rs (d.handleFrame channel m) := by
  unfold Daemon.handleFrame
  cases hc : d.connections.get? channel with
  | none => exact hs
  | some c =>
    simp only
    split
    · exact hs
    · split
      · exact hs
      · rename_i content hdecode
        have hclient := client_of_get? hc
        cases hsession : c.session with
        | none => exact hs.handshake (hsession ▸ hclient) content _ _
        | some session => exact hs.request channel session content _ _

theorem handleGate (hs : Sound rs d) {gate : γ} (hgate : gate ∉ rs.map GateRequest.gate)
    (m : Message) : Sound (rs ++ [⟨gate, m, d.headFor? m⟩]) (d.handleGate gate m) :=
  have hd := handled d gate m
  ⟨hd.coherent hs.coherent, hd.linked hs.linked, hd.ledger hs.coherent hs.ledger hgate,
    hd.running.trans hs.running⟩

theorem reap (hs : Sound rs d) (s : SessionId) : Sound rs (d.reap s) := by
  have hlinked := hs.linked.reap hs.coherent s
  unfold Daemon.reap at hlinked ⊢
  split at hlinked
  · exact hs.close _
  · have hended : Linked (d.operate (.teardown s)) := hlinked
    show Sound rs (d.operate (.teardown s))
    exact ⟨coherent_perform hs.coherent _, hended, ledger_operate hs.coherent hs.ledger rfl,
      hs.running⟩

theorem foldl_reap (hs : Sound rs d) (lost : List SessionId) :
    Sound rs (lost.foldl Daemon.reap d) := by
  induction lost generalizing d with
  | nil => exact hs
  | cons s₀ lost ih => exact ih (hs.reap s₀)

theorem reapRounds (hs : Sound rs d) (rounds : Nat) : Sound rs (Daemon.reapRounds rounds d) := by
  induction rounds generalizing d with
  | zero => exact hs
  | succ rounds ih =>
    unfold Daemon.reapRounds
    split
    · exact hs
    · exact ih (hs.foldl_reap _)

theorem reapLost (hs : Sound rs d) : Sound rs d.reapLost ∧ d.reapLost.broker.lostSessions = [] :=
  ⟨hs.reapRounds _, reapLost_lostSessions hs.coherent⟩

theorem pending (hs : Sound rs d) {id : HeadId} {h : Head γ}
    (hh : d.broker.heads.get? id = some h) : ∃ i inst channel c, i ∈ h.instances ∧
      d.broker.instances.get? i = some inst ∧ inst.head = id ∧ inst.state = .pending ∧
      d.connections.get? channel = some c ∧ c.session = some inst.session := by
  -- A head is waited for because somebody can still answer, who has a connection.
  have hlive := (hs.ledger.busy hh).resolve_right List.not_mem_nil
  rw [(hs.coherent.tallies hh).live, List.countP_pos_iff] at hlive
  obtain ⟨i, hmem, hunanswered⟩ := hlive
  obtain ⟨inst, hi, hhead⟩ := (hs.coherent.tallies hh).member hmem
  rw [Table.unanswered_eq hi, Bool.not_eq_true'] at hunanswered
  have hstate : inst.state = .pending := by
    rw [Instance.state, hunanswered, hs.coherent.unreplied hi]
  obtain ⟨sess, hsess⟩ := session_of_instance (x := d.exchange) hs.coherent hi
  have hmember : d.member inst.session = some (sess.uid, sess.channel) := by
    rw [member, show d.broker.sessions.get? inst.session = some sess from hsess]
    rfl
  obtain ⟨c, hc, -, hsession⟩ := get?_of_client (hs.linked.linked.mp hmember)
  exact ⟨i, inst, sess.channel, c, hmem, hi, hhead, hstate, hc, hsession⟩

end Sound

end Daemon

end Arbiter
