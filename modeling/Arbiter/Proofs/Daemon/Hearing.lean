import Arbiter.Daemon.Hub
import Arbiter.Proofs.Broker.Refusals
import Arbiter.Proofs.Daemon.Upkeep

/-!
What one connection is told. Greetings and replies come from the daemon itself, events and results
through the broker, and only to connections that have a session. So while any function of the daemon
runs, a connection stays as it is or is closed, and of the daemon itself it hears at most the reply
to its own frame.
-/

namespace Arbiter

variable {γ : Type}

def Message.isDirect (m : Message) : Bool :=
  match m.decode with
  | .ok (.hello ..) | .ok (.reply ..) => true
  | _ => false

namespace Daemon

open Exchange

variable {d d' d'' : Daemon γ} {channel channel' : ChannelId} {m : Message}

def heard (d : Daemon γ) (channel : ChannelId) : List Message := Hub.received d.log channel

def Brokers (d : Daemon γ) (send : Send) : Prop :=
  send.message.isDirect = false ∧ ∃ s uid, d.member s = some (uid, send.channel)

/-- From `d` to `d'` a connection stayed as it was or was closed, and `said` is all that the daemon
itself told it; a connection without a session was told nothing else. -/
structure Hears (channel : ChannelId) (said : List Message) (d d' : Daemon γ) : Prop where
  settings : d'.settings = d.settings
  coherent : d'.broker.Coherent
  linked : Linked d'
  accepted : channel.number < d'.nextChannel ↔ channel.number < d.nextChannel
  client : d'.client channel = d.client channel ∨ d'.client channel = none
  heard : ∃ new, d'.heard channel = d.heard channel ++ new ∧ new.filter Message.isDirect = said ∧
    ((∀ uid s, d.client channel ≠ some (uid, some s)) → new = said)

namespace Hears

theorem trans {said said' : List Message} (h : Hears channel said d d')
    (h' : Hears channel said' d' d'') : Hears channel (said ++ said') d d'' where
  settings := h'.settings.trans h.settings
  coherent := h'.coherent
  linked := h'.linked
  accepted := h'.accepted.trans h.accepted
  client := by
    rcases h'.client with hsame | hgone
    · rw [hsame]
      exact h.client
    · exact .inr hgone
  heard := by
    obtain ⟨new, hnew, hsaid, honly⟩ := h.heard
    obtain ⟨new', hnew', hsaid', honly'⟩ := h'.heard
    refine ⟨new ++ new', by rw [hnew', hnew, List.append_assoc], ?_, fun hnone => ?_⟩
    · rw [List.filter_append, hsaid, hsaid']
    · rw [honly hnone, honly' fun uid s hclient => ?_]
      rcases h.client with hsame | hgone
      · exact hnone uid s (hsame ▸ hclient)
      · rw [hgone] at hclient
        cases hclient

theorem followed {said : List Message} (h : Hears channel said d d')
    (h' : Hears channel [] d' d'') : Hears channel said d d'' := by
  have hboth := h.trans h'
  rwa [List.append_nil] at hboth

theorem gone {said : List Message} (h : Hears channel said d d')
    (hgone : d.client channel = none) : d'.client channel = none := by
  rcases h.client with hsame | hgone'
  · rw [hsame, hgone]
  · exact hgone'

theorem quiet (hsettings : d'.settings = d.settings) (hb : d'.broker.Coherent) (hl : Linked d')
    (haccepted : channel.number < d'.nextChannel ↔ channel.number < d.nextChannel)
    (hclient : d'.client channel = d.client channel ∨ d'.client channel = none)
    (hqueued : d'.log.queued = d.log.queued) : Hears channel [] d d' where
  settings := hsettings
  coherent := hb
  linked := hl
  accepted := haccepted
  client := hclient
  heard := by
    refine ⟨[], ?_, rfl, fun _ => rfl⟩
    rw [Daemon.heard, Hub.received, hqueued, List.append_nil]
    rfl

theorem refl (hb : d.broker.Coherent) (hl : Linked d) : Hears channel [] d d :=
  .quiet rfl hb hl Iff.rfl (.inl rfl) rfl

theorem brokered (hl : Linked d) (hsettings : d'.settings = d.settings)
    (hb : d'.broker.Coherent) (hl' : Linked d') (hnext : d'.nextChannel = d.nextChannel)
    (hclient : d'.client channel = d.client channel ∨ d'.client channel = none)
    {sends : List Send} (hqueued : d'.log.queued = d.log.queued ++ sends)
    (hsends : ∀ send ∈ sends, d.Brokers send) : Hears channel [] d d' where
  settings := hsettings
  coherent := hb
  linked := hl'
  accepted := by rw [hnext]
  client := hclient
  heard := by
    refine ⟨(sends.filter (·.channel = channel)).map Send.message, ?_, ?_, fun hnone => ?_⟩
    · rw [Daemon.heard, Hub.received, hqueued, List.filter_append, List.map_append]
      rfl
    · refine List.filter_eq_nil_iff.mpr fun m hm => ?_
      obtain ⟨send, hs, rfl⟩ := List.mem_map.mp hm
      rw [(hsends send (List.mem_of_mem_filter hs)).1]
      exact Bool.false_ne_true
    · rw [List.map_eq_nil_iff, List.filter_eq_nil_iff]
      intro send hs hchannel
      obtain ⟨s, uid, hmember⟩ := (hsends send hs).2
      rw [of_decide_eq_true hchannel] at hmember
      exact hnone uid s (hl.linked.mp hmember)

end Hears

theorem brokers_operate (hb : d.broker.Coherent) {op : Operation γ} (hop : settles op = true) :
    ∀ send ∈ (d.exchange.perform d.transport op).2.sends, d.Brokers send := by
  -- Sessions keep their channel through all of it, so a send in between goes to a member of `d`.
  have hend := perform_induction (t := d.transport) (x := d.exchange) (P := fun z =>
    (∀ s sess, z.broker.sessions.get? s = some sess →
      d.member s = some (sess.uid, sess.channel)) ∧
    ∀ send ∈ z.sends, d.Brokers send) hb op (fun {y ids} he => ?_)
    fun {id h y z new} hy hh hx hold => ?_
  · exact hend.2
  · constructor
    · intro s sess hs
      have hchange := he.profile hb s
      rw [hs, Option.map_some] at hchange
      generalize hprofile : some sess.profile = profile at hchange
      cases hchange with
      | same =>
        obtain ⟨sess₀, hs₀, hsame⟩ := Option.map_eq_some_iff.mp hprofile.symm
        have hclient : (sess₀.uid, sess₀.channel) = (sess.uid, sess.channel) :=
          congrArg (fun p => (p.1, p.2.1)) hsame
        rw [member, show d.broker.sessions.get? s = some sess₀ from hs₀, Option.map_some, hclient]
      | opened hopen =>
        subst hopen
        cases hop
      | registered hregister =>
        obtain ⟨g, rfl | rfl⟩ := hregister <;> cases hop
      | tornDown => cases hprofile
    · intro send hs
      rw [he.sends_of_settles hop] at hs
      exact absurd hs List.not_mem_nil
  · constructor
    · intro s sess hs
      have hsame := hx.profile s
      rw [hs, Option.map_some, eq_comm, Option.map_eq_some_iff] at hsame
      obtain ⟨sess₀, hs₀, hsame⟩ := hsame
      have hclient : (sess₀.uid, sess₀.channel) = (sess.uid, sess.channel) :=
        congrArg (fun p => (p.1, p.2.1)) hsame
      rw [hold.1 s sess₀ hs₀, hclient]
    · intro send hs
      rw [hx.sends, List.mem_append] at hs
      rcases hs with hs | hs
      · exact hold.2 send hs
      · obtain ⟨p, -, htells⟩ := hx.owed hy hh hs
        obtain ⟨sess, hsess, hchannel⟩ := htells.channel
        refine ⟨?_, p.2.session, sess.uid, hchannel ▸ hold.1 _ sess hsess⟩
        rw [Message.isDirect, Message.decode_outcome htells.message]

theorem brokers_operate_queued (hb : d.broker.Coherent) {op : Operation γ}
    (hop : settles op = true) : ∃ sends, (d.operate op).log.queued = d.log.queued ++ sends ∧
      ∀ send ∈ sends, d.Brokers send :=
  ⟨_, congrArg DaemonLog.queued (absorb_log ..),
    fun send hs => brokers_operate hb hop send (List.mem_of_mem_filter hs)⟩

theorem hears_operate (hb : d.broker.Coherent) (hl : Linked d) {op : Operation γ}
    (hop : settles op = true) (hstay : op.concernsSessions = false) :
    Hears channel [] d (d.operate op) := by
  obtain ⟨sends, hqueued, hsends⟩ := brokers_operate_queued hb hop
  exact .brokered hl rfl (coherent_perform (x := d.exchange) hb op) (hl.operate hb hstay) rfl
    (.inl (operate_client op channel)) hqueued hsends

theorem close_settings (d : Daemon γ) (channel : ChannelId) :
    (d.close channel).settings = d.settings := by
  unfold close
  split
  · rfl
  · simp only
    split <;> rfl

theorem hears_close (hb : d.broker.Coherent) (hl : Linked d) (channel' : ChannelId) :
    Hears channel [] d (d.close channel') := by
  have hlinked := hl.close hb channel'
  have hclient : (d.close channel').client channel = d.client channel ∨
      (d.close channel').client channel = none := by
    rw [close_client]
    split
    · exact .inr rfl
    · exact .inl rfl
  have hqueued : (d.close channel').broker.Coherent ∧
      ∃ sends, (d.close channel').log.queued = d.log.queued ++ sends ∧
        ∀ send ∈ sends, d.Brokers send := by
    cases hc : d.connections.get? channel' with
    | none =>
      rw [close_of_absent hc]
      exact ⟨hb, [], (List.append_nil _).symm, by simp⟩
    | some c =>
      cases hsession : c.session with
      | none =>
        rw [close_of_newcomer hc hsession]
        exact ⟨hb, [], (List.append_nil _).symm, by simp⟩
      | some s =>
        rw [close_of_member hc hsession]
        exact ⟨coherent_perform (x := (d.disconnect channel').exchange) hb _,
          brokers_operate_queued (d := d.disconnect channel') hb rfl⟩
  obtain ⟨hb', sends, hqueued, hsends⟩ := hqueued
  exact .brokered hl (close_settings ..) hb' hlinked (close_nextChannel ..) hclient hqueued hsends

theorem hears_send (hb : d.broker.Coherent) (hl : Linked d) (channel' : ChannelId)
    (hm : m.isDirect = true) : Hears channel
      (if channel' = channel ∧ (d.exchange.send d.transport .reply channel' m).1.isOk then [m]
        else []) d (d.absorb (d.exchange.send d.transport .reply channel' m).2) where
  settings := rfl
  coherent := hb
  linked := hl.send .reply channel' m
  accepted := Iff.rfl
  client := .inl (send_client .reply channel' channel m)
  heard := by
    have hqueued : (d.absorb (d.exchange.send d.transport .reply channel' m).2).log.queued =
        d.log.queued ++ [(⟨.reply, channel', m,
          (d.exchange.send d.transport .reply channel' m).1⟩ : Send)].filter (·.result.isOk) :=
      congrArg DaemonLog.queued (absorb_log ..)
    refine ⟨_, ?_, ?_, fun _ => rfl⟩
    · rw [heard, heard, Hub.received, Hub.received, hqueued, List.filter_append, List.map_append]
      generalize (d.exchange.send d.transport .reply channel' m).1 = result
      by_cases hchannel : channel' = channel <;> cases result <;>
        simp [hchannel, Except.isOk, Except.toBool]
    · split
      · rw [List.filter_singleton, hm, cond_true]
      · rfl

def hasRoom (d : Daemon γ) (channel : ChannelId) : Bool :=
  (d.connections.get? channel).any fun c =>
    c.writable && decide (c.queue.length < d.settings.outboundQueueDepth)

theorem send_isOk (d : Daemon γ) (purpose : Purpose) (channel : ChannelId) (m : Message) :
    (d.exchange.send d.transport purpose channel m).1.isOk = d.hasRoom channel := by
  have hroom : (d.exchange.send d.transport purpose channel m).1 = .ok () ↔
      d.hasRoom channel = true := by
    refine queues_send_eq_ok.trans ?_
    simp [hasRoom, exchange, Exchange.start, Option.any_eq_true]
  rw [Bool.eq_iff_iff, ← hroom]
  cases (d.exchange.send d.transport purpose channel m).1 <;> simp [Except.isOk, Except.toBool]

/-- How a reply to a frame of one connection looks to `channel`, from `d` to `d'`. -/
inductive Replied (channel : ChannelId) (r? : Option Reply) (d d' : Daemon γ) : Prop where
  | quiet (hr : ∀ r, r? = some r → r.channel ≠ channel) (h : Hears channel [] d d')
  | queued {r m} (hr : r? = some r) (hchannel : r.channel = channel)
      (hroom : d.hasRoom channel = true)
      (hm : m.decode = .ok (.reply r.token r.opcode r.error)) (h : Hears channel [m] d d')
  | refused {r} (hr : r? = some r) (hchannel : r.channel = channel)
      (hroom : d.hasRoom channel = false) (h : Hears channel [] d d')
      (hgone : d'.client channel = none)

namespace Replied

variable {r? : Option Reply}

theorem none (h : Hears channel [] d d') : Replied channel Option.none d d' :=
  .quiet (fun _ hr => nomatch hr) h

theorem followed (h : Replied channel r? d d') (h' : Hears channel [] d' d'') :
    Replied channel r? d d'' := by
  cases h with
  | quiet hr h => exact .quiet hr (h.followed h')
  | queued hr hchannel hroom hm h => exact .queued hr hchannel hroom hm (h.followed h')
  | refused hr hchannel hroom h hgone =>
    exact .refused hr hchannel hroom (h.followed h') (h'.gone hgone)

theorem after (h : Hears channel [] d d') (hsame : d'.hasRoom channel = d.hasRoom channel)
    (h' : Replied channel r? d' d'') : Replied channel r? d d'' := by
  cases h' with
  | quiet hr h' => exact .quiet hr (h.trans h')
  | queued hr hchannel hroom hm h' => exact .queued hr hchannel (hsame ▸ hroom) hm (h.trans h')
  | refused hr hchannel hroom h' hgone =>
    exact .refused hr hchannel (hsame ▸ hroom) (h.trans h') hgone

theorem hears (h : Replied channel r? d d') : ∃ said, Hears channel said d d' := by
  cases h with
  | quiet _ h => exact ⟨_, h⟩
  | queued _ _ _ _ h => exact ⟨_, h⟩
  | refused _ _ _ h => exact ⟨_, h⟩

theorem elsewhere (h : Replied channel r? d d') (hr : ∀ r, r? = some r → r.channel ≠ channel) :
    Hears channel [] d d' := by
  cases h with
  | quiet _ h => exact h
  | queued hsome hchannel => exact absurd hchannel (hr _ hsome)
  | refused hsome hchannel => exact absurd hchannel (hr _ hsome)

theorem coherent (h : Replied channel r? d d') : d'.broker.Coherent :=
  h.hears.elim fun _ h => h.coherent

theorem linked (h : Replied channel r? d d') : Linked d' :=
  h.hears.elim fun _ h => h.linked

end Replied

theorem replied_reply (hb : d.broker.Coherent) (hl : Linked d) (channel' : ChannelId)
    (token : UInt64) (opcode : UInt32) (error : Int32) :
    Replied channel (some ⟨channel', token, opcode, error⟩) d
      (d.reply channel' token opcode error) := by
  obtain ⟨m, hm⟩ := Message.exists_replyTo token opcode error
  have hdecode := Message.decode_reply hm
  have hdirect : m.isDirect = true := by rw [Message.isDirect, hdecode]
  have hsent : Hears channel _ d (d.absorb (d.exchange.send d.transport .reply channel' m).2) :=
    hears_send hb hl channel' hdirect
  have hok := d.send_isOk .reply channel' m
  unfold reply
  rw [hm]
  simp only
  split <;> rename_i heq <;> rw [heq] at hsent hok
  · by_cases hchannel : channel' = channel
    · rw [if_pos ⟨hchannel, rfl⟩] at hsent
      exact .queued rfl hchannel (hchannel ▸ hok.symm) hdecode hsent
    · rw [if_neg fun h => hchannel h.1] at hsent
      refine .quiet (fun r hr => ?_) hsent
      rw [← Option.some.inj hr]
      exact hchannel
  · rw [if_neg fun h => Bool.false_ne_true h.2] at hsent
    have hclosed := hsent.followed (hears_close hsent.coherent hsent.linked channel')
    by_cases hchannel : channel' = channel
    · refine .refused rfl hchannel (hchannel ▸ hok.symm) hclosed ?_
      rw [close_client, if_pos hchannel.symm]
    · refine .quiet (fun r hr => ?_) hclosed
      rw [← Option.some.inj hr]
      exact hchannel

theorem hears_connect (hb : d.broker.Coherent) (hl : Linked d) (uid : UInt32)
    (hchannel : channel ≠ ⟨d.nextChannel⟩) : Hears channel [] d (d.connect uid) := by
  refine .quiet rfl hb (hl.connect uid) ?_ (.inl ?_) rfl
  · have hne : channel.number ≠ d.nextChannel := fun h => hchannel (h ▸ rfl)
    show channel.number < d.nextChannel + 1 ↔ channel.number < d.nextChannel
    omega
  · rw [connect_client, if_neg hchannel]

theorem exists_greeting : ∃ m, Message.hello protocolVersion protocolMinVersion = .ok m := by
  unfold Message.hello
  exact Message.exists_compose (by decide)

theorem hears_accept (hb : d.broker.Coherent) (hl : Linked d) (uid : UInt32)
    {m : Message} (hm : Message.hello protocolVersion protocolMinVersion = .ok m) :
    Hears channel
      (if channel = ⟨d.nextChannel⟩ ∧ 0 < d.settings.outboundQueueDepth then [m] else [])
      (d.connect uid) (d.accept uid) := by
  have hdirect : m.isDirect = true := by rw [Message.isDirect, Message.decode_hello hm]
  have hb' : (d.connect uid).broker.Coherent := hb
  have hsent : Hears channel _ (d.connect uid) ((d.connect uid).absorb
      ((d.connect uid).exchange.send (d.connect uid).transport .reply ⟨d.nextChannel⟩ m).2) :=
    hears_send hb' (hl.connect uid) ⟨d.nextChannel⟩ hdirect
  have hroom : (d.connect uid).hasRoom ⟨d.nextChannel⟩ =
      decide (0 < d.settings.outboundQueueDepth) := by
    have hget : (d.connect uid).connections.get? ⟨d.nextChannel⟩ = some ⟨uid, none, [], true⟩ := by
      refine (Table.get?_insert ..).trans ?_
      rw [if_pos rfl]
    rw [hasRoom, hget]
    rfl
  have hsaid : (⟨d.nextChannel⟩ = channel ∧ ((d.connect uid).exchange.send
      (d.connect uid).transport .reply ⟨d.nextChannel⟩ m).1.isOk = true) ↔
      channel = ⟨d.nextChannel⟩ ∧ 0 < d.settings.outboundQueueDepth := by
    rw [send_isOk, hroom, decide_eq_true_eq, eq_comm]
  rw [if_congr hsaid rfl rfl] at hsent
  unfold accept
  rw [hm]
  exact hsent

theorem hears_openSession (hb : d.broker.Coherent) (hl : Linked d) {uid : UInt32}
    (hclient : d.client channel' = some (uid, none)) (hchannel : channel ≠ channel') :
    Hears channel [] d (d.openSession channel' uid) := by
  refine .quiet rfl (hb.openSession uid channel') (hl.openSession hb hclient) Iff.rfl (.inl ?_) rfl
  rw [openSession_client hclient, if_neg hchannel]

theorem openSession_hasRoom (d : Daemon γ) (channel' : ChannelId) (uid : UInt32)
    (channel : ChannelId) : (d.openSession channel' uid).hasRoom channel = d.hasRoom channel := by
  have hget : (d.openSession channel' uid).connections.get? channel =
      if channel = channel' then (d.connections.get? channel).map fun c =>
        { c with session := some ⟨d.broker.nextId⟩ }
      else d.connections.get? channel := Table.get?_modify ..
  unfold hasRoom
  rw [hget]
  split
  · rw [Option.any_map]
    rfl
  · rfl

theorem replied_change (hb : d.broker.Coherent) (hl : Linked d) (channel' : ChannelId)
    (token : UInt64) (opcode : UInt32) {result : Except Refusal (Broker γ)}
    (hresult : ∀ b, result = .ok b → ∃ s regs, b = d.broker.reregister s regs) :
    Replied channel (some ⟨channel', token, opcode, Refusal.codeOf result⟩) d
      (d.change channel' token opcode result) := by
  unfold change
  cases result with
  | error e => exact replied_reply hb hl ..
  | ok b =>
    obtain ⟨s, regs, rfl⟩ := hresult b rfl
    have hb' : (d.broker.reregister s regs).Coherent := hb.modifySession s fun _ => rfl
    have hl' := hl.reregister s regs
    have hchanged : Hears channel [] d { d with broker := d.broker.reregister s regs } :=
      .quiet rfl hb' hl' Iff.rfl (.inl rfl) rfl
    exact .after hchanged rfl (replied_reply hb' hl' ..)

theorem replied_request (hb : d.broker.Coherent) (hl : Linked d) (channel' : ChannelId)
    (s : SessionId) (content : Content) (token : UInt64) (opcode : UInt32)
    (htoken : content.token? = none ∨ content.token? = some token) :
    Replied channel ((d.replyCode? (some s) content).map (Reply.mk channel' token opcode)) d
      (d.request channel' s content token opcode) := by
  unfold request replyCode?
  cases content with
  | register r =>
    obtain rfl : r.token = token := by simpa [Content.token?] using htoken
    exact replied_change hb hl channel' _ opcode fun b h => ⟨s, Broker.register_eq h⟩
  | unregister r =>
    obtain rfl : r.token = token := by simpa [Content.token?] using htoken
    exact replied_change hb hl channel' _ opcode fun b h => ⟨s, Broker.unregister_eq h⟩
  | answer token' verdict delegate =>
    obtain rfl : token' = token := by simpa [Content.token?] using htoken
    have hanswered : Hears channel [] d (d.operate (.answer s token' verdict delegate)) :=
      hears_operate hb hl rfl rfl
    unfold operate at hanswered
    simp only [perform] at hanswered
    cases hanswer : d.exchange.answer d.transport s token' verdict delegate with
    | mk result x =>
      rw [hanswer] at hanswered
      simp only [hanswer]
      cases result with
      | ok => exact .none hanswered
      | error e =>
        have hsame := eq_of_refused_answer (x := d.exchange) (t := d.transport) hb
          (congrArg Prod.fst hanswer)
        rw [hanswer] at hsame
        refine .after hanswered ?_ (replied_reply hanswered.coherent hanswered.linked ..)
        subst hsame
        rfl
  | close token' =>
    obtain rfl : token' = token := by simpa [Content.token?] using htoken
    have hreply : Replied channel _ d (d.reply channel' token' opcode Errno.ok) :=
      replied_reply hb hl channel' token' opcode Errno.ok
    exact hreply.followed (hears_close hreply.coherent hreply.linked channel')
  | _ => exact replied_reply hb hl ..

end Daemon

def Content.selects : Content → Bool
  | .versel _ version => protocolMinVersion ≤ version && version ≤ protocolVersion
  | _ => false

namespace Daemon

open Exchange

variable {d d' : Daemon γ} {channel channel' : ChannelId} {m : Message}

section Handshake

variable {uid : UInt32} {content : Content} {token : UInt64} {opcode : UInt32}

theorem replyCode?_newcomer : d.replyCode? none content =
    some (if content.selects then Errno.ok else Errno.protocolError) := by
  cases content <;> simp [replyCode?, Content.selects]

theorem handshake_of_selects (hselects : content.selects = true)
    (htoken : content.token? = some token) : d.handshake channel uid content token opcode =
      (d.openSession channel uid).reply channel token opcode Errno.ok := by
  cases content with
  | versel token' version =>
    obtain rfl : token' = token := Option.some.inj htoken
    have hspoken : protocolMinVersion ≤ version ∧ version ≤ protocolVersion := by
      simpa [Content.selects] using hselects
    exact if_pos hspoken
  | _ => cases hselects

theorem handshake_of_not_selects (hselects : content.selects = false)
    (htoken : content.token? = none ∨ content.token? = some token) :
    d.handshake channel uid content token opcode =
      (d.reply channel token opcode Errno.protocolError).close channel := by
  cases content with
  | versel token' version =>
    obtain rfl : token' = token := by simpa [Content.token?] using htoken
    have hspoken : ¬(protocolMinVersion ≤ version ∧ version ≤ protocolVersion) := by
      simpa [Content.selects] using hselects
    exact if_neg hspoken
  | _ => rfl

theorem token_of_selects {token? : Option UInt64} (hselects : content.selects = true)
    (htoken : token? = content.token?) : content.token? = some (token?.getD 0) := by
  cases content with
  | versel token version => rw [htoken]; rfl
  | _ => cases hselects

end Handshake

def Selects (d : Daemon γ) (channel : ChannelId) (m : Message) : Prop :=
  (∃ uid, d.client channel = some (uid, none)) ∧ m.check = .ok () ∧
    ∃ content, m.decode = .ok content ∧ content.selects = true

theorem replied_handleFrame (hb : d.broker.Coherent) (hl : Linked d)
    (hnot : channel' = channel → ¬d.Selects channel' m) :
    Replied channel (d.replyTo? channel' m) d (d.handleFrame channel' m) := by
  have hnothing : Replied channel none d d := .none (.refl hb hl)
  unfold handleFrame replyTo?
  cases hc : d.connections.get? channel' with
  | none => exact hnothing
  | some c =>
    cases hcheck : m.check with
    | error fault => exact hnothing
    | ok =>
      cases hdecode : m.decode with
      | error fault => exact hnothing
      | ok content =>
        have htoken := Message.token?_of_decode hdecode
        simp only
        cases hsession : c.session with
        | some s =>
          refine replied_request hb hl channel' s content _ _ ?_
          rw [htoken]
          cases content.token? <;> simp
        | none =>
          have hclient : d.client channel' = some (c.uid, none) := hsession ▸ client_of_get? hc
          simp only [replyCode?_newcomer]
          cases hselects : content.selects with
          | false =>
            rw [handshake_of_not_selects hselects (by rw [htoken]; cases content.token? <;> simp)]
            have hreply : Replied channel _ d
                (d.reply channel' (m.token?.getD 0) (m.opcode?.getD 0) Errno.protocolError) :=
              replied_reply hb hl ..
            exact hreply.followed (hears_close hreply.coherent hreply.linked channel')
          | true =>
            -- A selection of this very connection is dealt with on its own.
            have hne : channel ≠ channel' := fun heq =>
              hnot heq.symm ⟨⟨_, hclient⟩, hcheck, content, hdecode, hselects⟩
            have hopen := hears_openSession hb hl hclient hne
            rw [handshake_of_selects hselects (token_of_selects hselects htoken)]
            exact .after hopen (openSession_hasRoom ..)
              (replied_reply hopen.coherent hopen.linked ..)

theorem handleFrame_selects (hb : d.broker.Coherent) (hl : Linked d) {uid : UInt32}
    (hclient : d.client channel = some (uid, none)) (hselects : d.Selects channel m) :
    ∃ r, d.replyTo? channel m = some r ∧
      Replied channel (some r) (d.openSession channel uid) (d.handleFrame channel m) := by
  obtain ⟨-, hcheck, content, hdecode, hselects⟩ := hselects
  obtain ⟨c, hc, rfl, hsession⟩ := get?_of_client hclient
  have htoken := Message.token?_of_decode hdecode
  unfold handleFrame replyTo?
  simp only [hc, hcheck, hdecode, hsession, replyCode?_newcomer, hselects, Option.map_some]
  rw [handshake_of_selects hselects (token_of_selects hselects htoken)]
  exact ⟨_, rfl, replied_reply (hb.openSession c.uid channel) (hl.openSession hb hclient) ..⟩

theorem handleFrame_refuses {uid : UInt32} (hclient : d.client channel = some (uid, none))
    (hcheck : m.check = .ok ()) (hnot : ¬d.Selects channel m) :
    (d.handleFrame channel m).client channel = none ∧
      ∃ r, d.replyTo? channel m = some r ∧ r.error = Errno.protocolError := by
  obtain ⟨c, hc, rfl, hsession⟩ := get?_of_client hclient
  obtain ⟨content, hdecode, -⟩ := Message.exists_decode hcheck
  have htoken := Message.token?_of_decode hdecode
  have hselects : content.selects = false := by
    rw [Bool.eq_false_iff]
    exact fun hselects => hnot ⟨⟨_, hclient⟩, hcheck, content, hdecode, hselects⟩
  unfold handleFrame replyTo?
  simp only [hc, hcheck, hdecode, hsession, replyCode?_newcomer, hselects, Option.map_some]
  rw [handshake_of_not_selects hselects (by rw [htoken]; cases content.token? <;> simp),
    close_client, if_pos rfl]
  exact ⟨rfl, _, rfl, rfl⟩

theorem hears_handleGate (hb : d.broker.Coherent) (hl : Linked d) (gate : γ) (m : Message) :
    Hears channel [] d (d.handleGate gate m) := by
  have hd := handled d gate m
  have hb' := hd.coherent hb
  have hl' := hd.linked hl
  generalize d.handleGate gate m = d' at hd hb' hl'
  have hoffered {e : Event} {x : Exchange γ Connections} {h : Head γ}
      (hm : m.decode = .ok (.event e)) (ho : Offered d m e x h) :
      ∀ send ∈ x.sends.filter (·.result.isOk), d.Brokers send := by
    intro send hs
    obtain ⟨⟨s, uid, -, hmember⟩, hmessage⟩ := ho.sent (List.mem_of_mem_filter hs)
    refine ⟨?_, s, uid, hmember⟩
    rw [Message.isDirect, hmessage, hm]
  cases hd with
  | malformed => exact .quiet rfl hb hl' Iff.rfl (.inl rfl) rfl
  | @waiting e x h hm _ ho =>
    refine .brokered hl rfl hb' hl' rfl (.inl (absorb_client (d := d.admitted m e) ho.carries _))
      ?_ (hoffered hm ho)
    exact congrArg DaemonLog.queued ho.log
  | @answered e x h v hm _ ho =>
    refine .brokered hl rfl hb' hl' rfl (.inl (absorb_client (d := d.admitted m e) ho.carries _))
      ?_ (hoffered hm ho)
    exact congrArg DaemonLog.queued ho.log

theorem hears_reap (hb : d.broker.Coherent) (hl : Linked d) (s : SessionId) :
    Hears channel [] d (d.reap s) := by
  have hl' := hl.reap hb s
  unfold reap at hl' ⊢
  split at hl'
  · exact hears_close hb hl _
  · have hsettles : settles (.teardown s : Operation γ) = true := rfl
    obtain ⟨sends, hqueued, hsends⟩ := brokers_operate_queued hb hsettles
    exact .brokered hl rfl (coherent_perform (x := d.exchange) hb (.teardown s)) hl' rfl
      (.inl (operate_client (.teardown s) channel)) hqueued hsends

theorem hears_foldl {α : Type} {f : Daemon γ → α → Daemon γ}
    (hf : ∀ {d : Daemon γ} (a), d.broker.Coherent → Linked d → Hears channel [] d (f d a))
    (as : List α) (hb : d.broker.Coherent) (hl : Linked d) :
    Hears channel [] d (as.foldl f d) := by
  induction as generalizing d with
  | nil => exact .refl hb hl
  | cons a as ih =>
    have hfirst := hf a hb hl
    exact hfirst.followed (ih hfirst.coherent hfirst.linked)

theorem hears_reapRounds (hb : d.broker.Coherent) (hl : Linked d) (rounds : Nat) :
    Hears channel [] d (reapRounds rounds d) := by
  induction rounds generalizing d with
  | zero => exact .refl hb hl
  | succ rounds ih =>
    unfold reapRounds
    split
    · exact .refl hb hl
    · have hreaped : Hears channel [] d (d.broker.lostSessions.foldl reap d) :=
        hears_foldl (fun s hb hl => hears_reap hb hl s) d.broker.lostSessions hb hl
      exact hreaped.followed (ih hreaped.coherent hreaped.linked)

theorem Hears.reaped {said : List Message} (h : Hears channel said d d') :
    Hears channel said d d'.reapLost :=
  h.followed (hears_reapRounds h.coherent h.linked _)

theorem hears_shutdown (hb : d.broker.Coherent) (hl : Linked d) (order : List ChannelId)
    (waiting : List γ) : Hears channel [] d (d.shutdown order waiting) := by
  have hclosed : Hears channel [] d (order.foldl close d) :=
    hears_foldl (fun channel hb hl => hears_close hb hl channel) order hb hl
  have hgiven {d : Daemon γ} (gate : γ) (hb : d.broker.Coherent) (hl : Linked d) :
      Hears channel [] d (d.giveVerdict gate .noDecision) :=
    .quiet rfl hb (hl.congr (fun _ => rfl) (fun _ => rfl) rfl) Iff.rfl (.inl rfl) rfl
  have hdismissed := hclosed.followed
    (hears_foldl hgiven waiting hclosed.coherent hclosed.linked)
  refine hdismissed.followed (.quiet rfl hdismissed.coherent ?_ Iff.rfl (.inl rfl) rfl)
  exact hdismissed.linked.congr (fun _ => rfl) (fun _ => rfl) rfl

theorem linked_handleFrame (hb : d.broker.Coherent) (hl : Linked d) (channel : ChannelId)
    (m : Message) : Linked (d.handleFrame channel m) ∧
      (d.handleFrame channel m).settings = d.settings := by
  by_cases hselects : d.Selects channel m
  · obtain ⟨uid, hclient⟩ := hselects.1
    obtain ⟨r, -, hreplied⟩ := handleFrame_selects hb hl hclient hselects
    exact hreplied.hears.elim fun _ h => ⟨h.linked, h.settings⟩
  · have hreplied : Replied channel _ d (d.handleFrame channel m) :=
      replied_handleFrame hb hl fun _ => hselects
    exact hreplied.hears.elim fun _ h => ⟨h.linked, h.settings⟩

theorem linked_step (hb : d.broker.Coherent) (hl : Linked d) (e : DaemonEvent γ) :
    Linked (d.step e) ∧ (d.step e).settings = d.settings := by
  have hheard {said : List Message} {d' : Daemon γ} (h : Hears ⟨0⟩ said d d') :
      Linked d' ∧ d'.settings = d.settings :=
    ⟨h.linked, h.settings⟩
  unfold step
  split
  · exact ⟨hl, rfl⟩
  · cases e with
    | accept uid =>
      obtain ⟨m, hm⟩ := exists_greeting
      have haccepted : Hears ⟨0⟩ _ (d.connect uid) (d.accept uid) := hears_accept hb hl uid hm
      exact ⟨haccepted.reaped.linked, haccepted.reaped.settings⟩
    | frame channel m =>
      obtain ⟨hlinked, hsettings⟩ := linked_handleFrame hb hl channel m
      have hreaped : Hears channel [] _ (d.handleFrame channel m).reapLost :=
        (Hears.refl (turn_handleFrame hb channel m).coherent hlinked).reaped
      exact ⟨hreaped.linked, hreaped.settings.trans hsettings⟩
    | hangUp channel => exact hheard (hears_close hb hl channel).reaped
    | gate gate m => exact hheard (hears_handleGate hb hl gate m).reaped
    | drain channel count =>
      exact ⟨hl.congr (fun _ => rfl) (fun _ => Table.map_get?_modify _ _ _ fun _ => rfl) rfl, rfl⟩
    | writeFailed channel =>
      exact ⟨hl.congr (fun _ => rfl) (fun _ => Table.map_get?_modify _ _ _ fun _ => rfl) rfl, rfl⟩
    | shutdown order waiting => exact hheard (hears_shutdown hb hl order waiting)

theorem linked_run (settings : DaemonSettings) (events : List (DaemonEvent γ)) :
    Linked ((new settings).run events) ∧ ((new settings).run events).settings = settings :=
  run_induction (I := fun _ d => Linked d ∧ d.settings = settings) ⟨linked_new settings, rfl⟩
    (fun {events} e hd => by
      obtain ⟨hlinked, hsettings⟩ := linked_step (coherent_run settings events) hd.1 e
      exact ⟨hlinked, hsettings.trans hd.2⟩) events

end Daemon

end Arbiter
