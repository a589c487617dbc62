import Arbiter.Proofs.Daemon.Hearing
import Arbiter.Proofs.Daemon.Outbound

/-!
The discipline of a connection. It is greeted once, before all else; until it has selected a version
it is told nothing more, unless its first frame is an error, which is its end; and every frame that
passes its check while the connection is open is replied to in turn, but for the answers that the
broker takes. A reply that finds no room is the last thing: the connection is closed.
-/

namespace Arbiter

variable {γ : Type}

def Response.isAnswered : Response → Bool
  | .answered _ => true
  | _ => false

def Message.isReply (m : Message) : Bool :=
  match m.decode with
  | .ok (.reply ..) => true
  | _ => false

structure Call where
  frame : Message
  room : Bool

/-- There was room for the reply, and it names the token and the opcode of the frame. -/
def Call.Answered (call : Call) (reply : Message) : Prop :=
  call.room = true ∧ ∃ error,
    reply.decode = .ok (.reply (call.frame.token?.getD 0) (call.frame.opcode?.getD 0) error)

structure Reply.Answers (r : Reply) (channel : ChannelId) (m : Message) : Prop where
  channel : r.channel = channel
  token : r.token = m.token?.getD 0
  opcode : r.opcode = m.opcode?.getD 0

theorem Reply.Answers.answered {r : Reply} {channel : ChannelId} {m reply : Message}
    (h : r.Answers channel m) {room : Bool} (hroom : room = true)
    (hm : reply.decode = .ok (.reply r.token r.opcode r.error)) :
    Call.Answered ⟨m, room⟩ reply :=
  ⟨hroom, r.error, by rw [hm, h.token, h.opcode]⟩

theorem Call.Answered.isReply {call : Call} {reply : Message} (h : call.Answered reply) :
    reply.isReply = true := by
  obtain ⟨-, error, hreply⟩ := h
  rw [Message.isReply, hreply]

namespace Daemon

variable {d d' : Daemon γ} {channel channel' : ChannelId} {m : Message} {e : DaemonEvent γ}
  {chosen chosen' : Prop} {calls : List Call}

def takes (d : Daemon γ) (channel : ChannelId) (m : Message) : Bool :=
  (d.answerIn? channel m).any fun op => (d.exchange.perform d.transport op).1.isAnswered

/-- The frame that an event brings from the connection, if it is to be replied to. -/
def call? (d : Daemon γ) (channel : ChannelId) : DaemonEvent γ → Option Call
  | .frame channel' m =>
    if d.running && channel' = channel && d.connections.contains channel && m.check.isOk &&
      !d.takes channel m then some ⟨m, d.hasRoom channel⟩ else none
  | _ => none

/-- The frames of a connection that are to be replied to in a run, in their order. -/
def callsIn (d : Daemon γ) (channel : ChannelId) : List (DaemonEvent γ) → List Call
  | [] => []
  | e :: events => (d.call? channel e).toList ++ callsIn (d.step e) channel events

/-- The event brings a selection of a version that the daemon speaks, and it is handled. -/
def Chooses (d : Daemon γ) (channel : ChannelId) : DaemonEvent γ → Prop
  | .frame channel' m => d.running = true ∧ channel' = channel ∧ d.Selects channel m
  | _ => False

def ChosenIn (d : Daemon γ) (channel : ChannelId) : List (DaemonEvent γ) → Prop
  | [] => False
  | e :: events => d.Chooses channel e ∨ ChosenIn (d.step e) channel events

theorem callsIn_snoc (d : Daemon γ) (channel : ChannelId) (events : List (DaemonEvent γ))
    (e : DaemonEvent γ) : d.callsIn channel (events ++ [e]) =
      d.callsIn channel events ++ ((d.run events).call? channel e).toList := by
  induction events generalizing d with
  | nil => exact List.append_nil _
  | cons e' events ih =>
    rw [List.cons_append, callsIn, ih, callsIn, List.append_assoc]
    rfl

theorem chosenIn_snoc (d : Daemon γ) (channel : ChannelId) (events : List (DaemonEvent γ))
    (e : DaemonEvent γ) : d.ChosenIn channel (events ++ [e]) ↔
      d.ChosenIn channel events ∨ (d.run events).Chooses channel e := by
  induction events generalizing d with
  | nil => exact or_comm
  | cons e' events ih =>
    rw [List.cons_append, ChosenIn, ih, ChosenIn, or_assoc]
    rfl

theorem replyTo?_answers {r : Reply} (h : d.replyTo? channel m = some r) : r.Answers channel m := by
  unfold replyTo? at h
  split at h
  · obtain ⟨error, -, rfl⟩ := Option.map_eq_some_iff.mp h
    exact ⟨rfl, rfl, rfl⟩
  · cases h

theorem replyTo?_isSome (d : Daemon γ) (channel : ChannelId) (m : Message) :
    (d.replyTo? channel m).isSome =
      (d.connections.contains channel && m.check.isOk && !d.takes channel m) := by
  unfold replyTo? takes answerIn? Table.contains
  cases hc : d.connections.get? channel with
  | none => rfl
  | some c =>
    cases hcheck : m.check with
    | error fault => rfl
    | ok =>
      obtain ⟨content, hdecode, -⟩ := Message.exists_decode hcheck
      simp only [hdecode, Option.isSome_map]
      cases c.session with
      | none => cases content <;> rfl
      | some s =>
        cases content with
        | answer token verdict delegate =>
          show (d.replyCode? (some s) (.answer token verdict delegate)).isSome =
            !(d.exchange.perform d.transport (.answer s token verdict delegate)).1.isAnswered
          simp only [replyCode?, Exchange.perform]
          cases d.exchange.answer d.transport s token verdict delegate with
          | mk result x => cases result <;> rfl
        | _ => rfl

theorem call?_frame (hrunning : d.running = true) (channel : ChannelId) (m : Message) :
    d.call? channel (.frame channel m) =
      (d.replyTo? channel m).map fun _ => ⟨m, d.hasRoom channel⟩ := by
  have hcalls : d.call? channel (.frame channel m) =
      if (d.replyTo? channel m).isSome then some ⟨m, d.hasRoom channel⟩ else none := by
    rw [replyTo?_isSome]
    simp [call?, hrunning]
  rw [hcalls]
  cases d.replyTo? channel m <;> rfl

theorem call?_of_stopped (hstopped : d.running = false) : d.call? channel e = none := by
  cases e <;> simp [call?, hstopped]

theorem call?_elsewhere (hne : channel' ≠ channel) :
    d.call? channel (.frame channel' m) = none := by
  simp [call?, hne]

def greeting (d : Daemon γ) : List Message :=
  if 0 < d.settings.outboundQueueDepth then
    (Message.hello protocolVersion protocolMinVersion).toOption.toList
  else []

theorem Hears.greeting {said : List Message} (h : Hears channel said d d') :
    d'.greeting = d.greeting := by
  rw [Daemon.greeting, h.settings, Daemon.greeting]

/-- How far a connection has come, after the frames `calls` that are to be replied to. -/
inductive Stage (channel : ChannelId) (d : Daemon γ) (chosen : Prop) (calls : List Call) :
    Prop where
  | unknown (hchannel : channel.number < d.nextChannel → channel.number = 0)
      (hclient : d.client channel = none) (hheard : d.heard channel = []) (hcalls : calls = [])
  | newcomer {uid} (hissued : channel.number < d.nextChannel)
      (hclient : d.client channel = some (uid, none)) (hheard : d.heard channel = d.greeting)
      (hcalls : calls = [])
  | member {uid s rest} (hissued : channel.number < d.nextChannel)
      (hclient : d.client channel = some (uid, some s))
      (hheard : d.heard channel = d.greeting ++ rest) (hchosen : chosen)
      (hreplies : List.Forall₂ Call.Answered calls (rest.filter Message.isDirect))
  | closed {rest answered refused} (hissued : channel.number < d.nextChannel)
      (hclient : d.client channel = none) (hheard : d.heard channel = d.greeting ++ rest)
      (hcalls : calls = answered ++ refused) (hrefused : refused.length ≤ 1)
      (hroom : ∀ call ∈ refused, call.room = false)
      (hreplies : List.Forall₂ Call.Answered answered (rest.filter Message.isDirect))
      (hfirst : ¬chosen → rest = [] ∨ ∃ reply token opcode, rest = [reply] ∧
        reply.decode = .ok (.reply token opcode Errno.protocolError))

namespace Stage

theorem mono (h : Stage channel d chosen calls) (hchosen : chosen → chosen') :
    Stage channel d chosen' calls := by
  cases h with
  | unknown hchannel hclient hheard hcalls => exact .unknown hchannel hclient hheard hcalls
  | newcomer hissued hclient hheard hcalls => exact .newcomer hissued hclient hheard hcalls
  | member hissued hclient hheard h hreplies =>
    exact .member hissued hclient hheard (hchosen h) hreplies
  | closed hissued hclient hheard hcalls hrefused hroom hreplies hfirst =>
    exact .closed hissued hclient hheard hcalls hrefused hroom hreplies
      fun hnot => hfirst fun h => hnot (hchosen h)

theorem dismissed (hissued : channel.number < d.nextChannel) (hclient : d.client channel = none)
    (hheard : d.heard channel = d.greeting) (hcalls : calls = []) :
    Stage channel d chosen calls := by
  have hheard' : d.heard channel = d.greeting ++ [] := by rw [hheard, List.append_nil]
  have hcalls' : calls = [] ++ [] := hcalls
  exact .closed hissued hclient hheard' hcalls' (Nat.zero_le 1) (by simp) .nil fun _ => .inl rfl

theorem hears (hs : Stage channel d chosen calls) (h : Hears channel [] d d') :
    Stage channel d' chosen calls := by
  have hgreeting := h.greeting
  obtain ⟨new, hnew, hdirect, honly⟩ := h.heard
  cases hs with
  | unknown hchannel hclient hheard hcalls =>
    refine .unknown (fun hlt => hchannel (h.accepted.mp hlt)) (h.gone hclient) ?_ hcalls
    rw [hnew, hheard, honly (by simp [hclient])]
    rfl
  | @newcomer uid hissued hclient hheard hcalls =>
    have hsame : d'.heard channel = d'.greeting := by
      rw [hnew, hheard, honly (by simp [hclient]), hgreeting, List.append_nil]
    rcases h.client with hstill | hgone
    · exact .newcomer (h.accepted.mpr hissued) (hstill.trans hclient) hsame hcalls
    · exact .dismissed (h.accepted.mpr hissued) hgone hsame hcalls
  | @member uid s rest hissued hclient hheard hchosen hreplies =>
    have hsame : d'.heard channel = d'.greeting ++ (rest ++ new) := by
      rw [hnew, hheard, hgreeting, List.append_assoc]
    have hreplies' : List.Forall₂ Call.Answered calls ((rest ++ new).filter Message.isDirect) := by
      rwa [List.filter_append, hdirect, List.append_nil]
    rcases h.client with hstill | hgone
    · exact .member (h.accepted.mpr hissued) (hstill.trans hclient) hsame hchosen hreplies'
    · exact .closed (h.accepted.mpr hissued) hgone hsame (List.append_nil _).symm
        (Nat.zero_le 1) (by simp) hreplies' fun hnot => absurd hchosen hnot
  | closed hissued hclient hheard hcalls hrefused hroom hreplies hfirst =>
    refine .closed (h.accepted.mpr hissued) (h.gone hclient) ?_ hcalls hrefused hroom hreplies
      hfirst
    rw [hnew, hheard, honly (by simp [hclient]), hgreeting, List.append_nil]

theorem replied {uid : UInt32} {s : SessionId} {rest : List Message} {r : Reply}
    (hissued : channel.number < d.nextChannel) (hclient : d.client channel = some (uid, some s))
    (hheard : d.heard channel = d.greeting ++ rest) (hchosen : chosen)
    (hreplies : List.Forall₂ Call.Answered calls (rest.filter Message.isDirect))
    (h : Replied channel (some r) d d') (hr : r.Answers channel m) :
    Stage channel d' chosen (calls ++ [⟨m, d.hasRoom channel⟩]) := by
  cases h with
  | quiet hne => exact absurd hr.channel (hne r rfl)
  | @queued _ reply hsame _ hroom hm h =>
    cases hsame
    obtain ⟨new, hnew, hdirect, -⟩ := h.heard
    have hgreeting := h.greeting
    have hheard' : d'.heard channel = d'.greeting ++ (rest ++ new) := by
      rw [hnew, hheard, hgreeting, List.append_assoc]
    have hreplies' : List.Forall₂ Call.Answered (calls ++ [⟨m, d.hasRoom channel⟩])
        ((rest ++ new).filter Message.isDirect) := by
      rw [List.filter_append, hdirect]
      exact List.rel_append hreplies (.cons (hr.answered hroom hm) .nil)
    rcases h.client with hstill | hgone
    · exact .member (h.accepted.mpr hissued) (hstill.trans hclient) hheard' hchosen hreplies'
    · exact .closed (h.accepted.mpr hissued) hgone hheard' (List.append_nil _).symm
        (Nat.zero_le 1) (by simp) hreplies' fun hnot => absurd hchosen hnot
  | refused _ _ hroom h hgone =>
    obtain ⟨new, hnew, hdirect, -⟩ := h.heard
    have hgreeting := h.greeting
    have hheard' : d'.heard channel = d'.greeting ++ (rest ++ new) := by
      rw [hnew, hheard, hgreeting, List.append_assoc]
    refine .closed (h.accepted.mpr hissued) hgone hheard' rfl (Nat.le_refl 1)
      (by simpa using hroom) ?_ fun hnot => absurd hchosen hnot
    rwa [List.filter_append, hdirect, List.append_nil]

theorem refused {uid : UInt32} {r : Reply} (hissued : channel.number < d.nextChannel)
    (hclient : d.client channel = some (uid, none)) (hheard : d.heard channel = d.greeting)
    (hnot : ¬d.Selects channel m) (h : Replied channel (some r) d (d.handleFrame channel m))
    (hr : d.replyTo? channel m = some r) :
    Stage channel (d.handleFrame channel m) chosen [⟨m, d.hasRoom channel⟩] := by
  have hanswers := replyTo?_answers hr
  obtain ⟨c, content, -, hcheck, -⟩ := replyTo?_eq_some hr
  obtain ⟨hgone, r', hr', herror⟩ := handleFrame_refuses hclient hcheck hnot
  obtain rfl := Option.some.inj (hr'.symm.trans hr)
  generalize d.handleFrame channel m = d' at h hgone
  have hnone : ∀ uid s, d.client channel ≠ some (uid, some s) := by simp [hclient]
  cases h with
  | quiet hne => exact absurd hanswers.channel (hne r' rfl)
  | @queued _ reply hsame _ hroom hm h =>
    cases hsame
    obtain ⟨new, hnew, hdirect, honly⟩ := h.heard
    obtain rfl := honly hnone
    have hgreeting := h.greeting
    have hheard' : d'.heard channel = d'.greeting ++ [reply] := by rw [hnew, hheard, hgreeting]
    refine .closed (h.accepted.mpr hissued) hgone hheard' (List.append_nil _).symm (Nat.zero_le 1)
      (by simp) ?_ fun _ => .inr ⟨reply, r'.token, r'.opcode, rfl, herror ▸ hm⟩
    rw [hdirect]
    exact .cons (hanswers.answered hroom hm) .nil
  | refused _ _ hroom h =>
    obtain ⟨new, hnew, -, honly⟩ := h.heard
    obtain rfl := honly hnone
    have hgreeting := h.greeting
    have hheard' : d'.heard channel = d'.greeting ++ [] := by rw [hnew, hheard, hgreeting]
    exact .closed (h.accepted.mpr hissued) hgone hheard' (List.nil_append _).symm (Nat.le_refl 1)
      (by simpa using hroom) .nil fun _ => .inl rfl

end Stage

theorem stage_handleFrame (hb : d.broker.Coherent) (hl : Linked d)
    (hs : Stage channel d chosen calls) (m : Message) :
    Stage channel (d.handleFrame channel m) (chosen ∨ d.Selects channel m)
      (calls ++ ((d.replyTo? channel m).map fun _ => Call.mk m (d.hasRoom channel)).toList) := by
  by_cases hselects : d.Selects channel m
  · obtain ⟨uid, hclient⟩ := id hselects.1
    obtain ⟨r, hr, hreplied⟩ := handleFrame_selects hb hl hclient hselects
    have hopened : (d.openSession channel uid).client channel =
        some (uid, some ⟨d.broker.nextId⟩) := by
      rw [openSession_client hclient, if_pos rfl]
    rw [hr, Option.map_some, Option.toList_some]
    cases hs with
    | newcomer hissued _ hheard hcalls =>
      have hheard' : (d.openSession channel uid).heard channel =
          (d.openSession channel uid).greeting ++ [] := by
        rw [List.append_nil]
        exact hheard
      rw [← openSession_hasRoom d channel uid, hcalls]
      exact Stage.replied hissued hopened hheard' (.inr hselects) .nil hreplied
        (replyTo?_answers hr)
    | unknown _ hother | member _ hother | closed _ hother =>
      rw [hother] at hclient
      cases hclient
  · have hreplied : Replied channel (d.replyTo? channel m) d (d.handleFrame channel m) :=
      replied_handleFrame hb hl fun _ => hselects
    suffices hstage : Stage channel (d.handleFrame channel m) chosen (calls ++
        ((d.replyTo? channel m).map fun _ => Call.mk m (d.hasRoom channel)).toList) from
      hstage.mono .inl
    cases hr : d.replyTo? channel m with
    | none =>
      rw [hr] at hreplied
      rw [Option.map_none, Option.toList_none, List.append_nil]
      exact hs.hears (hreplied.elsewhere (by simp))
    | some r =>
      rw [hr] at hreplied
      have hanswers := replyTo?_answers hr
      rw [Option.map_some, Option.toList_some]
      cases hs with
      | member hissued hclient hheard hchosen hreplies =>
        exact .replied hissued hclient hheard hchosen hreplies hreplied hanswers
      | newcomer hissued hclient hheard hcalls =>
        rw [hcalls]
        exact .refused hissued hclient hheard hselects hreplied hr
      | unknown _ hnone | closed _ hnone =>
        obtain ⟨c, -, hc, -⟩ := replyTo?_eq_some hr
        rw [client_of_get? hc] at hnone
        cases hnone

theorem stage_accept (hb : d.broker.Coherent) (hl : Linked d) (hs : Stage channel d chosen calls)
    (uid : UInt32) : Stage channel (d.accept uid) chosen calls := by
  obtain ⟨hello, hhello⟩ := exists_greeting
  have haccepted : Hears channel _ (d.connect uid) (d.accept uid) := hears_accept hb hl uid hhello
  by_cases hchannel : channel = ⟨d.nextChannel⟩
  · have hclient : (d.connect uid).client channel = some (uid, none) := by
      rw [connect_client, if_pos hchannel]
    have hissued : channel.number < (d.accept uid).nextChannel := by
      refine haccepted.accepted.mpr ?_
      rw [hchannel]
      exact Nat.lt_succ_self _
    have hlast : ¬channel.number < d.nextChannel := by
      rw [hchannel]
      exact Nat.lt_irrefl _
    cases hs with
    | unknown _ _ hheard hcalls =>
      obtain ⟨new, hnew, -, honly⟩ := haccepted.heard
      have hgreeted : (d.accept uid).heard channel = (d.accept uid).greeting := by
        rw [hnew, honly (by simp [hclient]), haccepted.greeting]
        show d.heard channel ++ _ = d.greeting
        rw [hheard, List.nil_append, greeting, hhello]
        simp [hchannel, Except.toOption]
      rcases haccepted.client with hstill | hgone
      · exact .newcomer hissued (hstill.trans hclient) hgreeted hcalls
      · exact .dismissed hissued hgone hgreeted hcalls
    | newcomer hissued | member hissued | closed hissued => exact absurd hissued hlast
  · rw [if_neg fun h => hchannel h.1] at haccepted
    exact hs.hears ((hears_connect hb hl uid hchannel).trans haccepted)

theorem stage_step (hb : d.broker.Coherent) (hl : Linked d) (hs : Stage channel d chosen calls)
    (e : DaemonEvent γ) : Stage channel (d.step e) (chosen ∨ d.Chooses channel e)
      (calls ++ (d.call? channel e).toList) := by
  have hreaped {d' : Daemon γ} {chosen : Prop} {calls : List Call} (hb' : d'.broker.Coherent)
      (hl' : Linked d') (hs : Stage channel d' chosen calls) :
      Stage channel d'.reapLost chosen calls := hs.hears (hears_reapRounds hb' hl' _)
  have hquiet {d' : Daemon γ} (hcall : d.call? channel e = none)
      (h : Stage channel d' chosen calls) : Stage channel d' (chosen ∨ d.Chooses channel e)
        (calls ++ (d.call? channel e).toList) := by
    rw [hcall, Option.toList_none, List.append_nil]
    exact h.mono .inl
  have hrequeued (channel' : ChannelId) {f : Connection → Connection}
      (hf : ∀ c, (f c).client = c.client) : Hears channel [] d
        { d with connections := d.connections.modify channel' f } := by
    have hclient (channel : ChannelId) :
        ({ d with connections := d.connections.modify channel' f } : Daemon γ).client channel =
          d.client channel := Table.map_get?_modify _ _ _ hf
    exact .quiet rfl hb (hl.congr (fun _ => rfl) hclient rfl) Iff.rfl (.inl (hclient channel)) rfl
  cases hrunning : d.running with
  | false =>
    rw [step_of_stopped hrunning]
    exact hquiet (call?_of_stopped hrunning) hs
  | true =>
    unfold step
    rw [hrunning]
    cases e with
    | accept uid =>
      obtain ⟨m, hm⟩ := exists_greeting
      have haccepted : Hears channel _ (d.connect uid) (d.accept uid) := hears_accept hb hl uid hm
      exact hquiet rfl (hreaped haccepted.coherent haccepted.linked (stage_accept hb hl hs uid))
    | frame channel' m =>
      by_cases hchannel : channel' = channel
      · subst channel'
        rw [call?_frame hrunning]
        have hchooses : chosen ∨ d.Selects channel m →
            chosen ∨ d.Chooses channel (.frame channel m) :=
          Or.imp_right fun hselects => ⟨hrunning, rfl, hselects⟩
        have hhandled := (stage_handleFrame hb hl hs m).mono hchooses
        exact hreaped (turn_handleFrame hb channel m).coherent
          (linked_handleFrame hb hl channel m).1 hhandled
      · have hreplied : Replied channel (d.replyTo? channel' m) d (d.handleFrame channel' m) :=
          replied_handleFrame hb hl fun heq => absurd heq hchannel
        refine hquiet (call?_elsewhere hchannel) (hs.hears (Hears.reaped (hreplied.elsewhere ?_)))
        intro r hr
        rw [(replyTo?_answers hr).channel]
        exact hchannel
    | hangUp channel' => exact hquiet rfl (hs.hears (hears_close hb hl channel').reaped)
    | gate gate m => exact hquiet rfl (hs.hears (hears_handleGate hb hl gate m).reaped)
    | drain channel' count => exact hquiet rfl (hs.hears (hrequeued channel' fun _ => rfl))
    | writeFailed channel' => exact hquiet rfl (hs.hears (hrequeued channel' fun _ => rfl))
    | shutdown order waiting =>
      exact hquiet rfl (hs.hears (hears_shutdown hb hl order waiting))

theorem stage_new (settings : DaemonSettings) (channel : ChannelId) :
    Stage channel (new settings : Daemon γ) chosen [] :=
  .unknown (fun hissued => Nat.lt_one_iff.mp hissued) rfl rfl rfl

theorem stage_run (settings : DaemonSettings) (channel : ChannelId)
    (events : List (DaemonEvent γ)) : Stage channel ((new settings).run events)
      ((new settings).ChosenIn channel events) ((new settings).callsIn channel events) :=
  run_induction (I := fun events d => Stage channel d ((new settings).ChosenIn channel events)
      ((new settings).callsIn channel events)) (stage_new settings channel)
    (fun {events} e hs => by
      have hb := coherent_run settings events
      rw [callsIn_snoc]
      refine (stage_step hb (linked_run settings events).1 hs e).mono ?_
      exact (chosenIn_snoc (new settings) channel events e).mpr) events

/-- What a connection has been told, and what it is told for its frames. -/
structure Discipline (channel : ChannelId) (d : Daemon γ) (chosen : Prop) (calls : List Call) :
    Prop where
  greeted : d.heard channel = [] ∨ ∃ hello rest, d.heard channel = hello :: rest ∧
    Message.hello protocolVersion protocolMinVersion = .ok hello ∧
    ∀ m ∈ rest, ∀ version minVersion, m.decode ≠ .ok (.hello version minVersion)
  accepted : 0 < channel.number → channel.number < d.nextChannel → d.heard channel ≠ []
  /-- Without a version there is nothing else but one protocol error, which is the end. -/
  newcomer : ¬chosen → (d.heard channel).tail = [] ∨ ∃ reply token opcode,
    (d.heard channel).tail = [reply] ∧
    reply.decode = .ok (.reply token opcode Errno.protocolError) ∧
    d.connections.contains channel = false
  /-- The frames are replied to in turn, until a reply finds no room and the connection closes. -/
  replies : ∃ answered refused, calls = answered ++ refused ∧
    List.Forall₂ Call.Answered answered ((d.heard channel).filter Message.isReply) ∧
    refused.length ≤ 1 ∧ (∀ call ∈ refused, call.room = false) ∧
    (refused ≠ [] → d.connections.contains channel = false)
  unchecked {m : Message} : m.check ≠ .ok () → d.step (.frame channel m) = d
  closed : d.connections.contains channel = false → ∀ m, d.step (.frame channel m) = d

theorem isReply_eq_isDirect {answered : List Call} {rest : List Message}
    (h : List.Forall₂ Call.Answered answered (rest.filter Message.isDirect)) {m : Message}
    (hm : m ∈ rest) : m.isReply = m.isDirect := by
  cases hdirect : m.isDirect with
  | true =>
    obtain ⟨call, -, hanswered⟩ :=
      Exchange.exists_left_of_mem_right h (List.mem_filter.mpr ⟨hm, hdirect⟩)
    exact hanswered.isReply
  | false =>
    unfold Message.isDirect at hdirect
    unfold Message.isReply
    split at hdirect <;> simp_all

theorem Stage.cases (hs : Stage channel d chosen calls) :
    (channel.number < d.nextChannel → channel.number = 0) ∧ d.heard channel = [] ∧ calls = [] ∨
    ∃ rest answered refused, d.heard channel = d.greeting ++ rest ∧ calls = answered ++ refused ∧
      List.Forall₂ Call.Answered answered (rest.filter Message.isDirect) ∧
      refused.length ≤ 1 ∧ (∀ call ∈ refused, call.room = false) ∧
      (refused ≠ [] → d.client channel = none) ∧
      (¬chosen → rest = [] ∨ ∃ reply token opcode, rest = [reply] ∧
        reply.decode = .ok (.reply token opcode Errno.protocolError) ∧
        d.client channel = none) := by
  cases hs with
  | unknown hchannel _ hheard hcalls => exact .inl ⟨hchannel, hheard, hcalls⟩
  | newcomer _ _ hheard hcalls =>
    exact .inr ⟨[], [], [], by rw [hheard, List.append_nil], hcalls, .nil, Nat.zero_le 1,
      by simp, fun hne => absurd rfl hne, fun _ => .inl rfl⟩
  | @member _ _ rest _ _ hheard hchosen hreplies =>
    exact .inr ⟨rest, calls, [], hheard, (List.append_nil _).symm, hreplies, Nat.zero_le 1,
      by simp, fun hne => absurd rfl hne, fun hnot => absurd hchosen hnot⟩
  | @closed rest answered refused _ hclient hheard hcalls hrefused hroom hreplies hfirst =>
    refine .inr ⟨rest, answered, refused, hheard, hcalls, hreplies, hrefused, hroom,
      fun _ => hclient, fun hnot => (hfirst hnot).imp_right ?_⟩
    rintro ⟨reply, token, opcode, hrest, hdecode⟩
    exact ⟨reply, token, opcode, hrest, hdecode, hclient⟩

theorem step_frame_ignored (hlost : d.running = true → d.broker.lostSessions = [])
    (h : m.check ≠ .ok () ∨ d.connections.get? channel = none) :
    d.step (.frame channel m) = d := by
  have hhandled : d.handleFrame channel m = d := by
    unfold handleFrame
    cases hc : d.connections.get? channel with
    | none => rfl
    | some c =>
      cases hcheck : m.check with
      | error fault => rfl
      | ok =>
        rcases h with h | h
        · exact absurd hcheck h
        · rw [hc] at h
          cases h
  cases hrunning : d.running with
  | false => exact step_of_stopped hrunning
  | true =>
    unfold step
    rw [hrunning]
    show (d.handleFrame channel m).reapLost = d
    rw [hhandled, reapLost_of_none_lost (hlost hrunning)]

theorem Stage.discipline (hs : Stage channel d chosen calls)
    (hdepth : 0 < d.settings.outboundQueueDepth)
    (hlost : d.running = true → d.broker.lostSessions = []) :
    Discipline channel d chosen calls := by
  obtain ⟨hello, hhello⟩ := exists_greeting
  have hgreeting : d.greeting = [hello] := by
    rw [greeting, if_pos hdepth, hhello]
    rfl
  have hcontains (hnone : d.client channel = none) : d.connections.contains channel = false := by
    rw [Table.contains, Option.map_eq_none_iff.mp hnone]
    rfl
  have hunchecked {m : Message} (hm : m.check ≠ .ok ()) : d.step (.frame channel m) = d :=
    step_frame_ignored hlost (.inl hm)
  have hclosed (hgone : d.connections.contains channel = false) (m : Message) :
      d.step (.frame channel m) = d := by
    refine step_frame_ignored hlost (.inr ?_)
    simpa [Table.contains] using hgone
  rcases hs.cases with ⟨hnone, hheard, hcalls⟩ |
    ⟨rest, answered, refused, hheard, hcalls, hreplies, hrefused, hroom, hgone, hfirst⟩
  · refine ⟨.inl hheard, fun hpos hlt => ?_, fun _ => .inl ?_, ⟨[], [], hcalls, ?_, ?_⟩,
      hunchecked, hclosed⟩
    · exact absurd (hnone hlt) (Nat.ne_of_gt hpos)
    · rw [hheard]
      rfl
    · rw [hheard]
      exact .nil
    · exact ⟨Nat.zero_le 1, by simp, fun hne => absurd rfl hne⟩
  · have hsame : d.heard channel = hello :: rest := by
      rw [hheard, hgreeting]
      rfl
    have hreply : (d.heard channel).filter Message.isReply = rest.filter Message.isDirect := by
      have hnot : hello.isReply = false := by
        rw [Message.isReply, Message.decode_hello hhello]
      rw [hsame, List.filter_cons_of_neg (by simp [hnot])]
      exact List.filter_congr fun m hm => isReply_eq_isDirect hreplies hm
    refine ⟨.inr ⟨hello, rest, hsame, hhello, fun m hm version minVersion hdecode => ?_⟩,
      fun _ _ => hsame ▸ List.cons_ne_nil _ _, fun hnot => ?_,
      ⟨answered, refused, hcalls, hreply ▸ hreplies, hrefused, hroom,
        fun hne => hcontains (hgone hne)⟩,
      hunchecked, hclosed⟩
    · have hkind := isReply_eq_isDirect hreplies hm
      rw [Message.isReply, Message.isDirect, hdecode] at hkind
      cases hkind
    · rw [hsame, List.tail_cons]
      refine (hfirst hnot).imp_right ?_
      rintro ⟨reply, token, opcode, hrest, hdecode, hclient⟩
      exact ⟨reply, token, opcode, hrest, hdecode, hcontains hclient⟩

theorem discipline_run (settings : DaemonSettings) (hdepth : 0 < settings.outboundQueueDepth)
    (events : List (DaemonEvent γ)) (channel : ChannelId) :
    Discipline channel ((new settings).run events) ((new settings).ChosenIn channel events)
      ((new settings).callsIn channel events) := by
  refine (stage_run settings channel events).discipline ?_ (lostSessions_run settings events)
  rw [(linked_run settings events).2]
  exact hdepth

set_option maxRecDepth 100000 in
/-- A client that is greeted, selects a version and subscribes. -/
theorem discipline_run_subscriber :
    let start : Daemon Nat := new .default
    let d := start.run rootSubscription
    Discipline ⟨1⟩ d (start.ChosenIn ⟨1⟩ rootSubscription) (start.callsIn ⟨1⟩ rootSubscription) ∧
      (start.callsIn ⟨1⟩ rootSubscription).length = 2 ∧ (d.heard ⟨1⟩).length = 3 := by
  intro start d
  refine ⟨discipline_run .default ?_ rootSubscription ⟨1⟩, ?_⟩
  · decide
  · decide +kernel

end Daemon

end Arbiter
