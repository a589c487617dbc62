import Arbiter.Proofs.Client.Correlation
import Arbiter.Proofs.Daemon.Turns

/-!
What the daemon grants to a client: a session, a registration or the end of one. Code zero in reply
to a request means that it was granted, or that it was the request to close. An answer is only
replied to when it is refused, so nothing that answers lead to passes for a grant.
-/

namespace Arbiter

def Notice.isGrant : Notice → Bool
  | .connected _ | .registered _ _ | .unregistered _ _ => true
  | _ => false

theorem Notice.isConclusion_of_isGrant {n : Notice} (h : n.isGrant) : n.isConclusion := by
  cases n <;> first | rfl | cases h

namespace Daemon

variable {γ : Type} {d d' : Daemon γ} {channel : ChannelId} {m : Message} {r : Reply}

/-- The daemon grants what a frame asks for, and this is what its client may be told. -/
inductive Granted (d : Daemon γ) (channel : ChannelId) (m : Message) : Notice → Prop where
  | connected {c token version} (hc : d.connections.get? channel = some c)
      (hsession : c.session = none) (hm : m.decode = .ok (.versel token version))
      (hstep : d.step (.frame channel m) = ((d.openSession channel c.uid).reply channel token
        (m.opcode?.getD 0) Errno.ok).reapLost) :
      Granted d channel m (.connected version)
  | registered {c s r b} (hc : d.connections.get? channel = some c)
      (hsession : c.session = some s) (hm : m.decode = .ok (.register r))
      (hb : d.broker.register s r.filter = .ok b)
      (hstep : d.step (.frame channel m) = ({ d with broker := b }.reply channel r.token
        (m.opcode?.getD 0) Errno.ok).reapLost) :
      Granted d channel m (.registered r.token r.filter)
  | unregistered {c s r b} (hc : d.connections.get? channel = some c)
      (hsession : c.session = some s) (hm : m.decode = .ok (.unregister r))
      (hb : d.broker.unregister s r.filter = .ok b)
      (hstep : d.step (.frame channel m) = ({ d with broker := b }.reply channel r.token
        (m.opcode?.getD 0) Errno.ok).reapLost) :
      Granted d channel m (.unregistered r.token r.filter)

theorem step_frame (hrunning : d.running = true) {c : Connection} {content : Content}
    (hc : d.connections.get? channel = some c) (hcheck : m.check = .ok ())
    (hm : m.decode = .ok content) :
    d.step (.frame channel m) = (match c.session with
      | none => d.handshake channel c.uid content (m.token?.getD 0) (m.opcode?.getD 0)
      | some s => d.request channel s content (m.token?.getD 0) (m.opcode?.getD 0)).reapLost := by
  cases hsession : c.session <;>
    simp only [step, hrunning, handleFrame, hc, hcheck, hm, hsession, Bool.not_true,
      Bool.false_eq_true, ↓reduceIte]

theorem replyCode?_versel {session : Option SessionId} {token : UInt64} {version : UInt32}
    (h : d.replyCode? session (.versel token version) = some 0) :
    session = none ∧ protocolMinVersion ≤ version ∧ version ≤ protocolVersion := by
  cases session with
  | none =>
    simp only [replyCode?, Option.some.injEq] at h
    split at h
    · rename_i hspoken
      exact ⟨rfl, hspoken⟩
    · exact absurd h (by decide)
  | some s => exact absurd (Option.some.inj h) (by decide)

theorem replyCode?_register {session : Option SessionId} {r : Registration}
    (h : d.replyCode? session (.register r) = some 0) :
    ∃ s b, session = some s ∧ d.broker.register s r.filter = .ok b := by
  cases session with
  | none => exact absurd (Option.some.inj h) (by decide)
  | some s =>
    obtain ⟨b, hb⟩ := Refusal.codeOf_eq_zero.mp (Option.some.inj h)
    exact ⟨s, b, rfl, hb⟩

theorem replyCode?_unregister {session : Option SessionId} {r : Registration}
    (h : d.replyCode? session (.unregister r) = some 0) :
    ∃ s b, session = some s ∧ d.broker.unregister s r.filter = .ok b := by
  cases session with
  | none => exact absurd (Option.some.inj h) (by decide)
  | some s =>
    obtain ⟨b, hb⟩ := Refusal.codeOf_eq_zero.mp (Option.some.inj h)
    exact ⟨s, b, rfl, hb⟩

theorem replyCode?_answer {session : Option SessionId} {token : UInt64} {v : Verdict}
    {delegate : Bool} : d.replyCode? session (.answer token v delegate) ≠ some 0 := by
  cases session with
  | none =>
    intro h
    exact absurd (Option.some.inj h) (by decide)
  | some s =>
    simp only [replyCode?]
    cases (d.exchange.answer d.transport s token v delegate).1 with
    | ok => exact fun h => nomatch h
    | error e =>
      intro h
      exact e.errno_ne_zero (Option.some.inj h)

theorem replyTo?_answer {token : UInt64} {v : Verdict} {delegate : Bool}
    (h : Message.answer token v delegate = .ok m) (hr : d.replyTo? channel m = some r) :
    r.error ≠ 0 := by
  intro hzero
  obtain ⟨c, content, -, -, hm, hcode, -⟩ := replyTo?_eq_some hr
  obtain rfl : content = .answer token v delegate :=
    Except.ok.inj (hm.symm.trans (Message.decode_answer h))
  exact replyCode?_answer (hzero ▸ hcode)

theorem granted_of_replyTo? (hrunning : d.running = true) {what : Request} {token : UInt64}
    (h : what.Written token m) (hr : d.replyTo? channel m = some r) :
    r.token = token ∧ (r.error = 0 → ∀ notice ∈ what.conclusion token r.error,
      notice.isGrant = true → d.Granted channel m notice) := by
  obtain ⟨c, content, hc, hcheck, hm, hcode, htoken, -⟩ := replyTo?_eq_some hr
  have hstep := step_frame hrunning hc hcheck hm
  rw [Message.token?_of_decode hm] at hstep
  cases h with
  | @versel version _ _ h =>
    obtain rfl : content = .versel token version :=
      Except.ok.inj (hm.symm.trans (Message.decode_versel h))
    refine ⟨htoken, fun hzero notice hnotice _ => ?_⟩
    rw [hzero] at hcode hnotice
    obtain ⟨hsession, hspoken⟩ := replyCode?_versel hcode
    obtain rfl := List.mem_singleton.mp hnotice
    rw [hsession] at hstep
    exact .connected hc hsession hm (by simpa only [handshake, if_pos hspoken] using hstep)
  | @register f _ _ h =>
    obtain rfl : content = .register ⟨token, f, none⟩ :=
      Except.ok.inj (hm.symm.trans (Message.decode_register h))
    refine ⟨htoken, fun hzero notice hnotice _ => ?_⟩
    rw [hzero] at hcode hnotice
    obtain ⟨s, b, hsession, hb⟩ := replyCode?_register hcode
    obtain rfl := List.mem_singleton.mp hnotice
    rw [hsession] at hstep
    exact .registered hc hsession hm hb (by simpa only [request, change, hb] using hstep)
  | @unregister f _ _ h =>
    obtain rfl : content = .unregister ⟨token, f, none⟩ :=
      Except.ok.inj (hm.symm.trans (Message.decode_unregister h))
    refine ⟨htoken, fun hzero notice hnotice _ => ?_⟩
    rw [hzero] at hcode hnotice
    obtain ⟨s, b, hsession, hb⟩ := replyCode?_unregister hcode
    obtain rfl := List.mem_singleton.mp hnotice
    rw [hsession] at hstep
    exact .unregistered hc hsession hm hb (by simpa only [request, change, hb] using hstep)
  | close h =>
    obtain rfl : content = .close token :=
      Except.ok.inj (hm.symm.trans (Message.decode_close h))
    refine ⟨htoken, fun _ notice hnotice hgrant => ?_⟩
    obtain rfl := List.mem_singleton.mp hnotice
    cases hgrant

def queuedSince (d d' : Daemon γ) (channel : ChannelId) : List Message :=
  ((d'.log.queued.drop d.log.queued.length).filter (·.channel = channel)).map Send.message

theorem acknowledged_of_reply? (sends : List Send) (channel : ChannelId) :
    ((sends.filter (·.channel = channel)).map Send.message).filterMap Message.acknowledged? =
      ((sends.filterMap Send.reply?).filter (·.channel = channel)).map
        fun r => (r.token, r.error) := by
  rw [List.filterMap_map, List.filterMap_filter, List.filter_filterMap, List.map_filterMap]
  refine List.filterMap_congr fun send _ => ?_
  simp only [Function.comp, Message.acknowledged?, Send.reply?]
  cases hm : send.message.decode with
  | error => split <;> rfl
  | ok content =>
    cases content with
    | reply token opcode error =>
      by_cases hchannel : send.channel = channel <;> simp [hchannel, Option.filter]
    | _ => split <;> rfl

theorem acknowledged_step (hb : d.broker.Coherent) (e : DaemonEvent γ) (channel : ChannelId) :
    ((d.queuedSince (d.step e) channel).filterMap Message.acknowledged?).Sublist
      (((d.replies e).filter (·.channel = channel)).map fun r => (r.token, r.error)) := by
  obtain ⟨new, hnew, -, hreplies⟩ := (turn_step hb e).queued
  have hsince : (d.step e).log.queued.drop d.log.queued.length = new := by
    rw [hnew, List.drop_left]
  rw [queuedSince, hsince, acknowledged_of_reply?]
  exact (hreplies.filter _).map _

end Daemon

end Arbiter
