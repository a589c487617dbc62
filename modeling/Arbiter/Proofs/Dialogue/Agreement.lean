import Arbiter.Proofs.Dialogue.Basic
import Arbiter.Proofs.Dialogue.Reports

/-!
What a client reports as granted was granted. A reply is taken for that to a request because it has
the request's token, so all hangs on who else uses that token: no other request of the client does,
as long as tokens last, and what the daemon sends under the tokens of events is never a reply with
code zero.
-/

namespace Arbiter

open Client

variable {γ : Type}

namespace Dialogue

variable {s : Dialogue γ}

/-- Each notice is of a grant that was made with a frame of its own, in that order. -/
def Accounted (channel : ChannelId) (notices : List Notice)
    (handled : List (Daemon γ × Message)) : Prop :=
  List.SublistForall₂ (fun notice frame => frame.1.Granted channel frame.2 notice) notices handled

/-- All that the client reported as granted was granted before, as often as it was reported. -/
def Agrees (s : Dialogue γ) : Prop :=
  Accounted s.channel (s.notices.filter Notice.isGrant) s.handled

def acks (s : Dialogue γ) : List (UInt64 × Int32) := s.incoming.filterMap Message.acknowledged?

def repliesTo (s : Dialogue γ) (e : DaemonEvent γ) : List (UInt64 × Int32) :=
  (s.daemon.queuedSince (s.daemon.step e) s.channel).filterMap Message.acknowledged?

def reports (s : Dialogue γ) : List Notice :=
  s.notices.filter Notice.isGrant ++ s.client.due s.acks

structure Sound (s : Dialogue γ) : Prop where
  coherent : s.daemon.broker.Coherent
  poised : s.client.Poised
  numbered : ∃ start, Numbered start s.issued s.client.nextToken
  outgoing : ∀ m ∈ s.outgoing, Ours s.client s.issued m
  acknowledged : ∀ ack ∈ s.acks, ack.2 = 0 → ack.1 ∈ s.issued
  granted : Accounted s.channel s.reports s.handled

theorem withClient_ok (s : Dialogue γ) (reaction : Reaction) (c : Client) :
    s.withClient (.ok reaction, c) =
      { s with
        client := c
        outgoing := s.outgoing ++ reaction.send
        notices := s.notices ++ reaction.notices
        issued := s.issued ++ s.client.issued c } :=
  rfl

theorem withClient_error (s : Dialogue γ) (e : ClientError) :
    s.withClient (.error e, s.client) = s := by
  simp only [withClient, Except.toOption, Option.getD_none, Reaction.none, issued_self,
    List.append_nil]

theorem repliesTo_sublist (s : Dialogue γ) (hb : s.daemon.broker.Coherent) (e : DaemonEvent γ) :
    (s.repliesTo e).Sublist (((s.daemon.replies e).filter (·.channel = s.channel)).map
      fun r => (r.token, r.error)) :=
  Daemon.acknowledged_step hb e s.channel

theorem repliesTo_of_stopped (hrunning : s.daemon.running = false) (e : DaemonEvent γ) :
    s.repliesTo e = [] := by
  simp [repliesTo, Daemon.step, hrunning, Daemon.queuedSince]

namespace Sound

theorem agrees (hs : s.Sound) : s.Agrees :=
  hs.granted.weaken (List.sublist_append_left _ _)

theorem settled (hs : s.Sound) {i : Nat} {t : Transaction Unit Empty} (token : UInt64)
    (version : Option UInt32) (hi : s.client.transactions.items[i]? = some t)
    (ht : ∀ token', token' ≠ token → t ≠ Transaction.forReply token') :
    Sound { s with client := s.client.settled i token version } where
  coherent := hs.coherent
  poised := hs.poised.settled version hi ht
  numbered := hs.numbered
  outgoing m hm := (hs.outgoing m hm).settled i token version
  acknowledged := hs.acknowledged
  granted := hs.granted.weaken ((List.Sublist.refl _).append (due_settled i token version))

theorem asked (hs : s.Sound) {what : Request} {m : Message}
    (h : what.Written s.client.nextToken m) (hfresh : s.client.nextToken ∉ s.issued) :
    Sound (s.withClient (.ok ⟨[m], []⟩, s.client.asked what)) := by
  rw [withClient_ok, issued_asked, List.append_nil]
  constructor
  · exact hs.coherent
  · exact hs.poised.asked what
  · obtain ⟨start, hstart⟩ := hs.numbered
    exact ⟨start, hstart.advance hs.poised.nonzero⟩
  · intro m' hm'
    rcases List.mem_append.mp hm' with hm' | hm'
    · exact (hs.outgoing m' hm').asked what hfresh
    · obtain rfl := List.mem_singleton.mp hm'
      refine .request h (List.mem_append_right _ (List.mem_singleton_self _)) fun hwhat => ?_
      rw [Client.asked, Table.get?_insert, if_pos rfl] at hwhat
      exact (Option.some.inj hwhat).symm
  · exact fun ack hack herror => List.mem_append_left _ (hs.acknowledged ack hack herror)
  · -- Nothing with code zero is on its way under a token that was not given away before.
    have hdue : (s.client.asked what).due s.acks = s.client.due s.acks :=
      due_asked what fun ack hack herror htoken =>
        hfresh (htoken ▸ hs.acknowledged ack hack herror)
    show Accounted _ (_ ++ (s.client.asked what).due s.acks) _
    rw [hdue]
    exact hs.granted

theorem noted (hs : s.Sound) {reaction : Reaction}
    (hsend : ∀ m ∈ reaction.send, Ours s.client s.issued m)
    (hnotices : reaction.notices.filter Notice.isGrant = []) :
    Sound (s.withClient (.ok reaction, s.client)) := by
  rw [withClient_ok, issued_self, List.append_nil]
  constructor
  · exact hs.coherent
  · exact hs.poised
  · exact hs.numbered
  · exact fun m hm => (List.mem_append.mp hm).elim (hs.outgoing m) (hsend m)
  · exact hs.acknowledged
  · show Accounted _ ((s.notices ++ reaction.notices).filter Notice.isGrant ++ _) _
    rw [List.filter_append, hnotices, List.append_nil]
    exact hs.granted

theorem failed (hs : s.Sound) (e : ClientError) : Sound (s.withClient (.error e, s.client)) := by
  rw [withClient_error]
  exact hs

theorem asks (hs : s.Sound) {what : Request} {result : Except ClientError Message × Client}
    (ha : Asks s.client what result)
    (hissued : (s.withClient (writing result)).issued.length < UInt64.size) :
    Sound (s.withClient (writing result)) := by
  cases ha with
  | refused => exact hs.failed _
  | sent h =>
    obtain ⟨start, hstart⟩ := hs.numbered
    rw [writing, withClient, issued_asked] at hissued
    exact hs.asked h (hstart.unused hissued)

theorem command (hs : s.Sound) (command : ClientCommand)
    (hissued : (s.withClient (s.client.command command)).issued.length < UInt64.size) :
    Sound (s.withClient (s.client.command command)) := by
  cases command with
  | register f => exact hs.asks (s.client.register_asks f) hissued
  | unregister f => exact hs.asks (s.client.unregister_asks f) hissued
  | close => exact hs.asks s.client.close_asks hissued
  | answer token verdict delegate =>
    cases hanswer : s.client.answer token verdict delegate with
    | error e =>
      rw [Client.command, hanswer]
      exact hs.failed e
    | ok m =>
      rw [Client.command, hanswer]
      refine hs.noted (fun m' hm' => ?_) rfl
      obtain rfl := List.mem_singleton.mp hm'
      exact .answer (answer_eq_ok hanswer)

theorem heard (hs : s.Sound) {m : Message} {rest : List Message}
    (hincoming : s.incoming = m :: rest) : Sound { s with incoming := rest } where
  coherent := hs.coherent
  poised := hs.poised
  numbered := hs.numbered
  outgoing := hs.outgoing
  acknowledged ack hack := by
    refine hs.acknowledged ack ?_
    rw [acks, hincoming]
    exact (List.sublist_cons_self m rest).filterMap _ |>.mem hack
  granted := by
    refine hs.granted.weaken ((List.Sublist.refl _).append ?_)
    rw [acks, acks, hincoming]
    exact ((List.sublist_cons_self m rest).filterMap _).flatMap _

theorem replied (hs : s.Sound) {m : Message} {rest : List Message}
    (hincoming : s.incoming = m :: rest) {i : Nat} {token : UInt64} {opcode : UInt32}
    {error : Int32} (version : Option UInt32)
    (hi : s.client.transactions.items[i]? = some (Transaction.forReply token))
    (hm : m.decode = .ok (.reply token opcode error)) :
    Sound ({ s with incoming := rest }.withClient
      (.ok ⟨[], s.client.conclusion token error⟩, s.client.settled i token version)) := by
  have hacks : s.acks = (token, error) :: rest.filterMap Message.acknowledged? := by
    rw [acks, hincoming, List.filterMap_cons, Message.acknowledged?, hm]
  have hsettled := (hs.heard hincoming).settled token version hi fun token' hne h =>
    hne (congrArg Transaction.token h).symm
  rw [withClient_ok, issued_settled, List.append_nil, List.append_nil]
  refine { hsettled with granted := ?_ }
  -- What is told now is what was due for the reply.
  have hreports : s.reports = s.notices.filter Notice.isGrant ++
      ((s.client.conclusion token error).filter Notice.isGrant ++
        s.client.due (rest.filterMap Message.acknowledged?)) := by
    rw [reports, hacks, due, List.flatMap_cons, due]
  refine (hreports ▸ hs.granted).weaken ?_
  show ((s.notices ++ s.client.conclusion token error).filter Notice.isGrant ++
    (s.client.settled i token version).due (rest.filterMap Message.acknowledged?)).Sublist _
  rw [List.filter_append, List.append_assoc]
  exact (List.Sublist.refl _).append ((List.Sublist.refl _).append (due_settled i token version))

theorem hear (hs : s.Sound) {m : Message} {rest : List Message}
    (hincoming : s.incoming = m :: rest)
    (hissued : ({ s with incoming := rest }.withClient (s.client.receive m)).issued.length <
      UInt64.size) :
    Sound ({ s with incoming := rest }.withClient (s.client.receive m)) := by
  have hheard := hs.heard hincoming
  cases hcheck : m.check with
  | error fault =>
    rw [receive_of_malformed hcheck]
    exact hheard.failed _
  | ok =>
    have hreceived := hs.poised.received hcheck
    generalize s.client.receive m = result at hreceived hissued ⊢
    cases hreceived with
    | unsolicited =>
      cases hreaction : unsolicited m with
      | error e => exact hheard.failed e
      | ok reaction =>
        obtain ⟨hsend, hnotices⟩ := unsolicited_notices hreaction
        refine hheard.noted (fun m' hm' => ?_) hnotices
        rw [hsend] at hm'
        cases hm'
    | ignored hop hi =>
      rw [withClient_ok, issued_settled, Reaction.none]
      simp only [List.append_nil]
      exact hheard.settled 0 s.client.version hi fun token' _ => forGreeting_ne_forReply token'
    | greeted hop hi ha =>
      have hsettled := hheard.settled 0 s.client.version hi fun token' _ =>
        forGreeting_ne_forReply token'
      exact hsettled.asks ha hissued
    | replied version hi hm => exact hs.replied hincoming version hi hm

theorem withDaemon (hs : s.Sound) (e : DaemonEvent γ) (read : List (Daemon γ × Message))
    (hzero : ∀ ack ∈ s.repliesTo e, ack.2 = 0 → ack.1 ∈ s.issued)
    (hgranted : Accounted s.channel (s.client.due (s.repliesTo e)) read) :
    Sound ({ s with handled := s.handled ++ read }.withDaemon e) := by
  have hacks : ({ s with handled := s.handled ++ read }.withDaemon e).acks =
      s.acks ++ s.repliesTo e := List.filterMap_append
  constructor
  · exact (Daemon.turn_step hs.coherent e).coherent
  · exact hs.poised
  · exact hs.numbered
  · exact hs.outgoing
  · rw [hacks]
    exact fun ack hack => (List.mem_append.mp hack).elim (hs.acknowledged ack) (hzero ack)
  · rw [reports, hacks, due_append, ← List.append_assoc]
    exact hs.granted.append hgranted

theorem carry_unanswered (hs : s.Sound) (m : Message)
    (hnone : s.repliesTo (.frame s.channel m) = []) :
    Sound ({ s with handled := s.handled ++ [(s.daemon, m)] }.withDaemon (.frame s.channel m)) := by
  refine hs.withDaemon _ _ ?_ ?_
  · rw [hnone]
    exact fun ack hack => nomatch hack
  · rw [hnone]
    exact .nil

theorem carry_answered (hs : s.Sound) {m : Message} (hm : Ours s.client s.issued m) {r : Reply}
    (hrunning : s.daemon.running = true) (hr : s.daemon.replyTo? s.channel m = some r)
    (hreplies : (s.repliesTo (.frame s.channel m)).Sublist [(r.token, r.error)]) :
    Sound ({ s with handled := s.handled ++ [(s.daemon, m)] }.withDaemon (.frame s.channel m)) := by
  -- Code zero means that the frame was a request, and its token that it was the one that the client
  -- takes the reply for.
  have hack : ∀ ack ∈ s.repliesTo (.frame s.channel m), ack = (r.token, r.error) :=
    fun ack hack => List.mem_singleton.mp (hreplies.mem hack)
  have hdue : (s.client.due (s.repliesTo (.frame s.channel m))).Sublist
      ((s.client.conclusion r.token r.error).filter Notice.isGrant) := by
    have hdue := hreplies.flatMap fun ack =>
      (s.client.conclusion ack.1 ack.2).filter Notice.isGrant
    rwa [List.flatMap_singleton] at hdue
  by_cases hzero : r.error = 0
  · cases hm with
    | answer h => exact absurd hzero (Daemon.replyTo?_answer h hr)
    | @request what token h htoken hpending =>
      obtain ⟨rfl, hgranted⟩ := Daemon.granted_of_replyTo? hrunning h hr
      refine hs.withDaemon _ _ (fun ack hmem _ => hack ack hmem ▸ htoken) ?_
      -- If a request is pending under the token then it is the one that the frame asks for.
      refine (List.SublistForall₂.single ?_ fun notice hnotice => ?_).weaken hdue
      · exact (List.length_filter_le ..).trans (s.client.length_conclusion_le _ _)
      · obtain ⟨hnotice, hgrant⟩ := List.mem_filter.mp hnotice
        cases hwhat : s.client.pending.get? r.token with
        | none =>
          rw [conclusion_of_idle _ hwhat] at hnotice
          cases hnotice
        | some what' =>
          rw [conclusion_of_pending _ hwhat, hpending hwhat] at hnotice
          exact hgranted hzero notice hnotice hgrant
  · refine hs.withDaemon _ _ (fun ack hmem hack' => ?_) ?_
    · rw [hack ack hmem] at hack'
      exact absurd hack' hzero
    · rw [filter_conclusion hzero] at hdue
      rw [List.sublist_nil.mp hdue]
      exact .nil

theorem carry (hs : s.Sound) : (s.move .carry).Sound := by
  cases houtgoing : s.outgoing with
  | nil =>
    rw [move, houtgoing]
    exact hs
  | cons m rest =>
    have hm : Ours s.client s.issued m := hs.outgoing m (houtgoing ▸ List.mem_cons_self)
    have hread : Sound { s with outgoing := rest } :=
      { hs with
        outgoing := fun m' hm' => hs.outgoing m' (houtgoing ▸ List.mem_cons_of_mem m hm') }
    rw [move, houtgoing]
    cases hrunning : s.daemon.running with
    | false => exact hread.carry_unanswered m (repliesTo_of_stopped hrunning _)
    | true =>
      have hreplies := s.repliesTo_sublist hs.coherent (.frame s.channel m)
      cases hr : s.daemon.replyTo? s.channel m with
      | none =>
        rw [Daemon.replies, hr] at hreplies
        exact hread.carry_unanswered m (List.sublist_nil.mp hreplies)
      | some r =>
        refine hread.carry_answered hm hrunning hr (hreplies.trans ?_)
        simp only [Daemon.replies, hr, Option.toList_some]
        exact (List.filter_sublist (l := [r])).map _

theorem elsewhere (hs : s.Sound) {e : DaemonEvent γ} (hother : e.isFrameOf s.channel = false) :
    (s.withDaemon e).Sound := by
  have hreplies := s.repliesTo_sublist hs.coherent e
  have hnone : s.repliesTo e = [] := by
    rw [List.filter_eq_nil_iff.mpr fun r hr => ?_] at hreplies
    · exact List.sublist_nil.mp hreplies
    · cases e with
      | frame channel m =>
        obtain ⟨-, -, -, -, -, -, -, hchannel⟩ :=
          Daemon.replyTo?_eq_some (Option.mem_toList.mp hr)
        rw [hchannel]
        exact ne_true_of_eq_false hother
      | _ => cases hr
  have hmoved := hs.withDaemon e [] (by simp [hnone]) (by rw [hnone]; exact .nil)
  rwa [List.append_nil] at hmoved

theorem move (hs : s.Sound) (move : DialogueMove γ)
    (hissued : (s.move move).issued.length < UInt64.size) : (s.move move).Sound := by
  cases move with
  | command command => exact hs.command command hissued
  | carry => exact hs.carry
  | hear =>
    cases hincoming : s.incoming with
    | nil =>
      rw [Dialogue.move, hincoming]
      exact hs
    | cons m rest =>
      rw [Dialogue.move, hincoming] at hissued ⊢
      exact hs.hear hincoming hissued
  | elsewhere e =>
    rw [Dialogue.move]
    cases hother : e.isFrameOf s.channel with
    | true => exact hs
    | false => exact hs.elsewhere hother

end Sound

theorem sound_start {d : Daemon γ} (hb : d.broker.Coherent) (uid seed : UInt32) :
    (start d uid seed).Sound := by
  refine Sound.elsewhere ?_ rfl
  constructor
  · exact hb
  · exact poised_fresh seed
  · exact ⟨_, Numbered.start_at (fresh_nextToken seed)⟩
  · exact fun m hm => nomatch hm
  · exact fun ack hack => nomatch hack
  · exact .nil

theorem issued_le_move (s : Dialogue γ) (move : DialogueMove γ) :
    s.issued.length ≤ (s.move move).issued.length := by
  have hclient (s : Dialogue γ) (result : Except ClientError Reaction × Client) :
      s.issued.length ≤ (s.withClient result).issued.length := by
    rw [withClient, List.length_append]
    exact Nat.le_add_right ..
  cases move with
  | command => exact hclient s _
  | carry =>
    rw [Dialogue.move]
    split <;> exact Nat.le_refl _
  | hear =>
    rw [Dialogue.move]
    split
    · exact Nat.le_refl _
    · exact hclient { s with incoming := _ } _
  | elsewhere =>
    rw [Dialogue.move]
    split <;> exact Nat.le_refl _

theorem issued_le_run (s : Dialogue γ) (moves : List (DialogueMove γ)) :
    s.issued.length ≤ (s.run moves).issued.length := by
  induction moves generalizing s with
  | nil => exact Nat.le_refl _
  | cons move moves ih => exact (s.issued_le_move move).trans (ih (s.move move))

theorem sound_run {moves : List (DialogueMove γ)} (hs : s.Sound)
    (hissued : (s.run moves).issued.length < UInt64.size) : (s.run moves).Sound := by
  induction moves generalizing s with
  | nil => exact hs
  | cons move moves ih =>
    have hmoved := hs.move move (((s.move move).issued_le_run moves).trans_lt hissued)
    exact ih hmoved hissued

/-- What a client reports as granted the daemon has granted, once for each report. -/
theorem agrees_run (settings : DaemonSettings) (before : List (DaemonEvent γ)) (uid seed : UInt32)
    (moves : List (DialogueMove γ))
    (hissued : ((start ((Daemon.new settings).run before) uid seed).run moves).issued.length <
      UInt64.size) :
    ((start ((Daemon.new settings).run before) uid seed).run moves).Agrees :=
  (sound_run (sound_start (Daemon.coherent_run settings before) uid seed) hissued).agrees

def connecting : Dialogue Nat :=
  (start ((Daemon.new .default).run []) 0 0).run [.hear, .carry, .hear]

set_option maxRecDepth 100000 in
theorem agrees_run_connecting : connecting.issued = [1] ∧ connecting.Agrees ∧
    connecting.notices = [.connected 3] := by
  have hrun : connecting.issued = [1] ∧ connecting.notices = [.connected 3] := by decide +kernel
  obtain ⟨hissued, hnotices⟩ := hrun
  refine ⟨hissued, agrees_run .default [] 0 0 [.hear, .carry, .hear] ?_, hnotices⟩
  show connecting.issued.length < UInt64.size
  rw [hissued]
  decide

end Dialogue

end Arbiter
