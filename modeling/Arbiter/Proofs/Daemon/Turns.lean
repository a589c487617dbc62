import Arbiter.Proofs.Message.Headers
import Arbiter.Proofs.Daemon.Admission

/-!
What the daemon queues while it handles an event. Greetings, replies and results are written by the
daemon itself and are sealed; an event is passed on as it came from its gate. A frame is replied to
at most once, with the code that its request came to.
-/

namespace Arbiter

structure Reply where
  channel : ChannelId
  token : UInt64
  opcode : UInt32
  error : Int32

def Send.reply? (send : Send) : Option Reply :=
  match send.message.decode with
  | .ok (.reply token opcode error) => some ⟨send.channel, token, opcode, error⟩
  | _ => none

def Refusal.codeOf {α : Type} : Except Refusal α → Int32
  | .ok _ => Errno.ok
  | .error e => e.errno

theorem Refusal.errno_ne_zero (e : Refusal) : e.errno ≠ 0 := by
  cases e <;> simp only [errno] <;> decide

theorem Refusal.codeOf_eq_zero {α : Type} {result : Except Refusal α} :
    Refusal.codeOf result = 0 ↔ ∃ a, result = .ok a := by
  cases result with
  | error e => simp [codeOf, e.errno_ne_zero]
  | ok a => simp [codeOf, Errno.ok]

namespace Broker

variable {ω : Type} {b b' : Broker ω} {s : SessionId} {f : Filter}

def reregister (b : Broker ω) (s : SessionId) (regs : Session → List Filter) : Broker ω :=
  b.modifySession s fun sess => { sess with registrations := regs sess }

theorem register_eq (h : b.register s f = .ok b') : ∃ regs, b' = b.reregister s regs := by
  unfold register at h
  split at h
  · cases h
  · split at h <;> cases h
    exact ⟨fun sess => sess.registrations ++ [f], rfl⟩

theorem unregister_eq (h : b.unregister s f = .ok b') : ∃ regs, b' = b.reregister s regs := by
  unfold unregister at h
  split at h
  · cases h
  · split at h <;> cases h
    exact ⟨fun sess => sess.registrations.erase f, rfl⟩

end Broker

def Content.answer? {γ : Type} (content : Content) (s : SessionId) : Option (Operation γ) :=
  match content with
  | .answer token verdict delegate => some (.answer s token verdict delegate)
  | _ => none

def DaemonEvent.passed {γ : Type} : DaemonEvent γ → List Message
  | .gate _ m => [m]
  | _ => []

namespace Daemon

open Exchange

variable {γ : Type} {d d' d'' : Daemon γ} {channel : ChannelId} {m : Message}

/-- From `d` to `d'` the broker's tables still agree, and what was queued has the right form and is
sealed unless it was passed on; of the replies, in their order, no other was queued. -/
structure Turn (passed : List Message) (replies : List Reply) (d d' : Daemon γ) : Prop where
  coherent : d'.broker.Coherent
  queued : ∃ new, d'.log.queued = d.log.queued ++ new ∧
    (∀ send ∈ new, send.message.verify = .ok () ∧
      (send.message.Sealed ∨ send.message ∈ passed)) ∧
    (new.filterMap Send.reply?).Sublist replies

namespace Turn

theorem quiet (hb : d'.broker.Coherent) (hqueued : d'.log.queued = d.log.queued) :
    Turn [] [] d d' where
  coherent := hb
  queued := ⟨[], by rw [hqueued, List.append_nil], by simp, List.Sublist.refl _⟩

theorem trans {passed passed' : List Message} {replies replies' : List Reply}
    (h : Turn passed replies d d') (h' : Turn passed' replies' d' d'') :
    Turn (passed ++ passed') (replies ++ replies') d d'' where
  coherent := h'.coherent
  queued := by
    obtain ⟨new, hnew, hpassed, hreplies⟩ := h.queued
    obtain ⟨new', hnew', hpassed', hreplies'⟩ := h'.queued
    refine ⟨new ++ new', by rw [hnew', hnew, List.append_assoc], fun send hs => ?_, ?_⟩
    · rw [List.mem_append]
      rcases List.mem_append.mp hs with hs | hs
      · exact (hpassed send hs).imp_right (Or.imp_right .inl)
      · exact (hpassed' send hs).imp_right (Or.imp_right .inr)
    · rw [List.filterMap_append]
      exact hreplies.append hreplies'

theorem mono {passed passed' : List Message} {replies replies' : List Reply}
    (h : Turn passed replies d d') (hpassed : passed ⊆ passed')
    (hreplies : replies.Sublist replies') : Turn passed' replies' d d' where
  coherent := h.coherent
  queued := by
    obtain ⟨new, hnew, hsent, hsub⟩ := h.queued
    exact ⟨new, hnew, fun send hs => (hsent send hs).imp_right (Or.imp_right (hpassed ·)),
      hsub.trans hreplies⟩

theorem followed {passed : List Message} {replies : List Reply} (h : Turn passed replies d d')
    (h' : Turn [] [] d' d'') : Turn passed replies d d'' := by
  simpa using h.trans h'

end Turn

theorem turn_operate (hb : d.broker.Coherent) {op : Operation γ} (hop : settles op = true) :
    Turn [] [] d (d.operate op) where
  coherent := coherent_perform hb op
  queued := by
    have houtcomes : ∀ send ∈ (d.exchange.perform d.transport op).2.sends,
        ∃ token you uid v, Message.outcome token you uid v = .ok send.message := by
      refine perform_induction (P := fun z => ∀ send ∈ z.sends,
        ∃ token you uid v, Message.outcome token you uid v = .ok send.message) hb op ?_ ?_
      · intro y ids he send hs
        rw [he.sends_of_settles hop] at hs
        exact absurd hs List.not_mem_nil
      · intro id h y z new hb hh hx hy send hs
        rw [hx.sends, List.mem_append] at hs
        rcases hs with hs | hs
        · exact hy send hs
        · obtain ⟨p, -, htells⟩ := hx.owed hb hh hs
          exact ⟨_, _, _, _, htells.message⟩
    refine ⟨_, congrArg DaemonLog.queued (absorb_log ..), fun send hs => ?_, ?_⟩
    · obtain ⟨token, you, uid, v, hm⟩ := houtcomes send (List.mem_of_mem_filter hs)
      have hcheck := Message.check_of_compose hm (Message.decode_outcome hm)
      exact (Message.check_eq_ok.mp hcheck).symm.imp_right .inl
    · refine List.sublist_nil.mpr (List.filterMap_eq_nil_iff.mpr fun send hs => ?_)
      obtain ⟨token, you, uid, v, hm⟩ := houtcomes send (List.mem_of_mem_filter hs)
      rw [Send.reply?, Message.decode_outcome hm]

theorem turn_send (hb : d.broker.Coherent) (hcheck : m.check = .ok ()) {replies : List Reply}
    (hreplies : ∀ result, (Send.reply? ⟨.reply, channel, m, result⟩).toList = replies) :
    Turn [] replies d (d.absorb (d.exchange.send d.transport .reply channel m).2) where
  coherent := hb
  queued := by
    have hsends := send_sends d.transport d.exchange .reply channel m
    refine ⟨_, congrArg DaemonLog.queued (absorb_log ..), fun send hs => ?_, ?_⟩
    · have hs := List.mem_of_mem_filter hs
      rw [hsends, List.mem_append, List.mem_singleton] at hs
      rcases hs with hs | rfl
      · exact absurd hs List.not_mem_nil
      · exact (Message.check_eq_ok.mp hcheck).symm.imp_right .inl
    · refine (List.filter_sublist.filterMap _).trans ?_
      rw [hsends]
      show ([_].filterMap Send.reply?).Sublist replies
      rw [← hreplies (d.exchange.send d.transport .reply channel m).1]
      cases hreply : Send.reply? _ <;> simp [hreply]

theorem turn_close (hb : d.broker.Coherent) (channel : ChannelId) :
    Turn [] [] d (d.close channel) := by
  have hdisconnect : Turn [] [] d (d.disconnect channel) := .quiet hb rfl
  cases hc : d.connections.get? channel with
  | none =>
    rw [close_of_absent hc]
    exact .quiet hb rfl
  | some c =>
    cases hsession : c.session with
    | none =>
      rw [close_of_newcomer hc hsession]
      exact hdisconnect
    | some s =>
      rw [close_of_member hc hsession]
      exact hdisconnect.followed (turn_operate (d := d.disconnect channel) hb rfl)

theorem turn_reply (hb : d.broker.Coherent) (channel : ChannelId) (token : UInt64)
    (opcode : UInt32) (error : Int32) :
    Turn [] [⟨channel, token, opcode, error⟩] d (d.reply channel token opcode error) := by
  obtain ⟨m, hm⟩ := Message.exists_replyTo token opcode error
  have hdecode := Message.decode_reply hm
  have hsent : Turn [] [⟨channel, token, opcode, error⟩] d
      (d.absorb (d.exchange.send d.transport .reply channel m).2) := by
    refine turn_send hb (Message.check_of_compose hm hdecode) fun result => ?_
    rw [Send.reply?, hdecode]
    rfl
  unfold reply
  rw [hm]
  simp only
  split <;> rename_i heq <;> rw [heq] at hsent
  · exact hsent
  · exact hsent.followed (turn_close hsent.coherent channel)

theorem turn_accept (hb : d.broker.Coherent) (uid : UInt32) : Turn [] [] d (d.accept uid) := by
  have hconnect : Turn [] [] d (d.connect uid) := .quiet hb rfl
  unfold accept
  split
  · exact hconnect
  · rename_i m hm
    have hdecode := Message.decode_hello hm
    refine hconnect.followed (turn_send (d := d.connect uid) hb
      (Message.check_of_compose hm hdecode) fun result => ?_)
    rw [Send.reply?, hdecode]
    rfl

def replyCode? (d : Daemon γ) (session : Option SessionId) (content : Content) : Option Int32 :=
  match session, content with
  | none, .versel _ version =>
    some (if protocolMinVersion ≤ version ∧ version ≤ protocolVersion then Errno.ok
      else Errno.protocolError)
  | none, _ => some Errno.protocolError
  | some s, .register r => some (Refusal.codeOf (d.broker.register s r.filter))
  | some s, .unregister r => some (Refusal.codeOf (d.broker.unregister s r.filter))
  | some s, .answer token verdict delegate =>
    match (d.exchange.answer d.transport s token verdict delegate).1 with
    | .ok _ => none
    | .error e => some e.errno
  | some _, .close _ => some Errno.ok
  | some _, _ => some Errno.invalidArgument

def replyTo? (d : Daemon γ) (channel : ChannelId) (m : Message) : Option Reply :=
  match d.connections.get? channel, m.check, m.decode with
  | some c, .ok _, .ok content => (d.replyCode? c.session content).map
    fun error => ⟨channel, m.token?.getD 0, m.opcode?.getD 0, error⟩
  | _, _, _ => none

theorem replyTo?_eq_some {r : Reply} (h : d.replyTo? channel m = some r) :
    ∃ c content, d.connections.get? channel = some c ∧ m.check = .ok () ∧
      m.decode = .ok content ∧ d.replyCode? c.session content = some r.error ∧
      r.token = content.token?.getD 0 ∧ r.channel = channel := by
  unfold replyTo? at h
  cases hc : d.connections.get? channel with
  | none =>
    rw [hc] at h
    cases h
  | some c =>
    cases hcheck : m.check with
    | error fault =>
      rw [hc, hcheck] at h
      cases h
    | ok =>
      cases hm : m.decode with
      | error fault =>
        rw [hc, hcheck, hm] at h
        cases h
      | ok content =>
        simp only [hc, hcheck, hm, Option.map_eq_some_iff] at h
        obtain ⟨error, hcode, rfl⟩ := h
        exact ⟨c, content, rfl, rfl, rfl, hcode, by rw [Message.token?_of_decode hm], rfl⟩

def answerIn? (d : Daemon γ) (channel : ChannelId) (m : Message) : Option (Operation γ) :=
  match d.connections.get? channel, m.check, m.decode with
  | some c, .ok _, .ok content => c.session.bind content.answer?
  | _, _, _ => none

theorem turn_change (hb : d.broker.Coherent) (channel : ChannelId) (token : UInt64)
    (opcode : UInt32) {result : Except Refusal (Broker γ)}
    (hresult : ∀ b, result = .ok b → b.Coherent) :
    Turn [] [⟨channel, token, opcode, Refusal.codeOf result⟩] d
      (d.change channel token opcode result) := by
  unfold change
  cases result with
  | error e => exact turn_reply hb ..
  | ok b =>
    have hb' := hresult b rfl
    have hchanged : Turn [] [] d { d with broker := b } := .quiet hb' rfl
    exact hchanged.trans (turn_reply (d := { d with broker := b }) hb' ..)

theorem coherent_register (hb : d.broker.Coherent) {s : SessionId} {f : Filter} {b : Broker γ}
    (h : d.broker.register s f = .ok b) : b.Coherent := by
  obtain ⟨regs, rfl⟩ := Broker.register_eq h
  exact hb.modifySession s fun _ => rfl

theorem coherent_unregister (hb : d.broker.Coherent) {s : SessionId} {f : Filter} {b : Broker γ}
    (h : d.broker.unregister s f = .ok b) : b.Coherent := by
  obtain ⟨regs, rfl⟩ := Broker.unregister_eq h
  exact hb.modifySession s fun _ => rfl

theorem turn_handshake (hb : d.broker.Coherent) (channel : ChannelId) (uid : UInt32)
    (content : Content) (token : UInt64) (opcode : UInt32)
    (htoken : ∀ token' version, content = .versel token' version → token' = token) :
    Turn [] ((d.replyCode? none content).map (Reply.mk channel token opcode)).toList d
      (d.handshake channel uid content token opcode) := by
  have hrefused (error : Int32) : Turn [] [⟨channel, token, opcode, error⟩] d
      ((d.reply channel token opcode error).close channel) := by
    have hreply := turn_reply hb channel token opcode error
    exact hreply.followed (turn_close hreply.coherent channel)
  unfold handshake replyCode?
  cases content with
  | versel token' version =>
    obtain rfl := htoken token' version rfl
    simp only
    split
    · have hopen : Turn [] [] d (d.openSession channel uid) :=
        .quiet (hb.openSession uid channel) rfl
      exact hopen.trans (turn_reply hopen.coherent ..)
    · exact hrefused _
  | _ => exact hrefused _

theorem turn_request (hb : d.broker.Coherent) (channel : ChannelId) (s : SessionId)
    (content : Content) (token : UInt64) (opcode : UInt32)
    (htoken : content.token? = none ∨ content.token? = some token) :
    Turn [] ((d.replyCode? (some s) content).map (Reply.mk channel token opcode)).toList d
      (d.request channel s content token opcode) := by
  unfold request replyCode?
  cases content with
  | register r =>
    obtain rfl : r.token = token := by simpa [Content.token?] using htoken
    exact turn_change hb channel _ opcode fun _ => coherent_register hb
  | unregister r =>
    obtain rfl : r.token = token := by simpa [Content.token?] using htoken
    exact turn_change hb channel _ opcode fun _ => coherent_unregister hb
  | answer token' verdict delegate =>
    obtain rfl : token' = token := by simpa [Content.token?] using htoken
    have hanswered : Turn [] [] d (d.operate (.answer s token' verdict delegate)) :=
      turn_operate hb rfl
    unfold operate at hanswered
    simp only [perform] at hanswered
    cases hanswer : d.exchange.answer d.transport s token' verdict delegate with
    | mk result x =>
      rw [hanswer] at hanswered
      simp only [hanswer]
      cases result with
      | ok => exact hanswered
      | error e => exact hanswered.trans (turn_reply hanswered.coherent ..)
  | close token' =>
    obtain rfl : token' = token := by simpa [Content.token?] using htoken
    have hreply := turn_reply hb channel token' opcode Errno.ok
    exact hreply.followed (turn_close hreply.coherent channel)
  | _ => exact turn_reply hb ..

theorem turn_handleFrame (hb : d.broker.Coherent) (channel : ChannelId) (m : Message) :
    Turn [] (d.replyTo? channel m).toList d (d.handleFrame channel m) := by
  have hnothing : Turn [] [] d d := .quiet hb rfl
  unfold handleFrame replyTo?
  cases hc : d.connections.get? channel with
  | none => exact hnothing
  | some c =>
    cases hcheck : m.check with
    | error fault => exact hnothing
    | ok =>
      cases hdecode : m.decode with
      | error fault => exact hnothing
      | ok content =>
        have htoken := Message.token?_of_decode hdecode
        simp only
        cases hsession : c.session with
        | none =>
          refine turn_handshake hb channel c.uid content _ _ fun token' version hversel => ?_
          rw [htoken, hversel]
          rfl
        | some s =>
          refine turn_request hb channel s content _ _ ?_
          rw [htoken]
          cases content.token? <;> simp

def replies (d : Daemon γ) : DaemonEvent γ → List Reply
  | .frame channel m => (d.replyTo? channel m).toList
  | _ => []

theorem Offered.turn {e : Event} {x : Exchange γ Connections} {h : Head γ}
    (ho : Offered d m e x h) (hm : m.decode = .ok (.event e)) (hb : d'.broker.Coherent)
    (hqueued : d'.log.queued = ((d.admitted m e).absorb x).log.queued) : Turn [m] [] d d' where
  coherent := hb
  queued := by
    rw [ho.log] at hqueued
    have hsent {send : Send} (hs : send ∈ x.sends.filter (·.result.isOk)) : send.message = m :=
      (ho.sent (List.mem_of_mem_filter hs)).2
    refine ⟨_, hqueued, fun send hs => ?_, ?_⟩
    · rw [hsent hs]
      exact ⟨(Message.decode_eq_ok.mp hm).1, .inr (List.mem_singleton_self m)⟩
    · refine List.sublist_nil.mpr (List.filterMap_eq_nil_iff.mpr fun send hs => ?_)
      rw [Send.reply?, hsent hs, hm]

theorem turn_handleGate (hb : d.broker.Coherent) (gate : γ) (m : Message) :
    Turn [m] [] d (d.handleGate gate m) := by
  have hd := handled d gate m
  have hb' := hd.coherent hb
  generalize d.handleGate gate m = d' at hd hb'
  cases hd with
  | malformed =>
    have hquiet : Turn [] [] d (d.giveVerdict gate .noDecision) := .quiet hb' rfl
    exact hquiet.mono (List.nil_subset _) (List.Sublist.refl _)
  | waiting hm hask ho hlive => exact ho.turn hm hb' rfl
  | answered hm hv ho hinstances => exact ho.turn hm hb' rfl

theorem turn_reap (hb : d.broker.Coherent) (s : SessionId) : Turn [] [] d (d.reap s) := by
  unfold reap
  split
  · exact turn_close hb _
  · have hended : Turn [] [] d (d.operate (.teardown s)) := turn_operate hb rfl
    exact hended

theorem turn_foldl {α : Type} {f : Daemon γ → α → Daemon γ}
    (hf : ∀ {d : Daemon γ} (a), d.broker.Coherent → Turn [] [] d (f d a)) (as : List α)
    (hb : d.broker.Coherent) : Turn [] [] d (as.foldl f d) := by
  induction as generalizing d with
  | nil => exact .quiet hb rfl
  | cons a as ih => exact (hf a hb).followed (ih (hf a hb).coherent)

theorem turn_reapRounds (hb : d.broker.Coherent) (rounds : Nat) :
    Turn [] [] d (reapRounds rounds d) := by
  induction rounds generalizing d with
  | zero => exact .quiet hb rfl
  | succ rounds ih =>
    unfold reapRounds
    split
    · exact .quiet hb rfl
    · rename_i lost hlost
      have hreaped := turn_foldl (fun s hb => turn_reap hb s) d.broker.lostSessions hb
      exact hreaped.followed (ih hreaped.coherent)

theorem turn_shutdown (hb : d.broker.Coherent) (order : List ChannelId) (waiting : List γ) :
    Turn [] [] d (d.shutdown order waiting) := by
  have hclosed := turn_foldl (fun channel hb => turn_close hb channel) order hb
  have hdismissed := turn_foldl (f := fun d gate => d.giveVerdict gate .noDecision)
    (fun gate hb => .quiet hb rfl) waiting hclosed.coherent
  exact (hclosed.followed hdismissed).followed (.quiet hdismissed.coherent rfl)

theorem turn_step (hb : d.broker.Coherent) (e : DaemonEvent γ) :
    Turn e.passed (d.replies e) d (d.step e) := by
  have hreaped {passed : List Message} {rs : List Reply} {d' : Daemon γ}
      (h : Turn passed rs d d') : Turn passed rs d d'.reapLost :=
    h.followed (turn_reapRounds h.coherent _)
  have hquiet {d' : Daemon γ} (h : Turn [] [] d d') : Turn e.passed (d.replies e) d d' :=
    h.mono (List.nil_subset _) (List.nil_sublist _)
  unfold step
  split
  · exact hquiet (.quiet hb rfl)
  · cases e with
    | accept uid => exact hreaped (turn_accept hb uid)
    | frame channel m => exact hreaped (turn_handleFrame hb channel m)
    | hangUp channel => exact hreaped (turn_close hb channel)
    | gate gate m => exact hreaped (turn_handleGate hb gate m)
    | drain channel count => exact .quiet hb rfl
    | writeFailed channel => exact .quiet hb rfl
    | shutdown order waiting => exact turn_shutdown hb order waiting

theorem coherent_run (settings : DaemonSettings) (events : List (DaemonEvent γ)) :
    ((new settings).run events).broker.Coherent :=
  run_induction (I := fun _ d => d.broker.Coherent) (Broker.coherent_new _)
    (fun e hb => (turn_step hb e).coherent) events

end Daemon

end Arbiter
