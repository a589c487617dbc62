import Arbiter.Proofs.Daemon.Discipline
import Arbiter.Proofs.Transaction.Custody

/-!
A message has one token, whoever looks for it. The place where it is looked for before a message is
read is the place from which every kind reads it; so the replies of the daemon and the choice of a
transaction, which go by the first, agree with what was read.
-/

namespace Arbiter

theorem Content.token?_eq_none {content : Content} :
    content.token? = none ↔
      (∃ version minVersion, content = .hello version minVersion) ∨
        ∃ kind, content = .retired kind := by
  cases content <;> simp [token?]

namespace Daemon

variable {γ : Type} {d d' d'' : Daemon γ} {channel channel' : ChannelId} {m : Message}

def EchoesOnly (channel : ChannelId) (m : Message) (channel' : ChannelId) (d d' : Daemon γ) :
    Prop :=
  ∃ new, d'.heard channel' = d.heard channel' ++ new ∧
    ∀ reply ∈ new, ∀ token opcode error, reply.decode = .ok (.reply token opcode error) →
      channel' = channel ∧ token = m.token?.getD 0 ∧ opcode = m.opcode?.getD 0

theorem Hears.direct {said : List Message} (h : Hears channel said d d') :
    ∃ new, d'.heard channel = d.heard channel ++ new ∧
      ∀ reply ∈ new, ∀ token opcode error, reply.decode = .ok (.reply token opcode error) →
        reply ∈ said := by
  obtain ⟨new, hnew, hsaid, -⟩ := h.heard
  refine ⟨new, hnew, fun reply hreply token opcode error hdecode => ?_⟩
  rw [← hsaid, List.mem_filter]
  exact ⟨hreply, by rw [Message.isDirect, hdecode]⟩

theorem Hears.echoesOnly (h : Hears channel' [] d d') : EchoesOnly channel m channel' d d' := by
  obtain ⟨new, hnew, hdirect⟩ := h.direct
  exact ⟨new, hnew, fun reply hreply token opcode error hdecode =>
    absurd (hdirect reply hreply token opcode error hdecode) List.not_mem_nil⟩

namespace EchoesOnly

theorem trans (h : EchoesOnly channel m channel' d d')
    (h' : EchoesOnly channel m channel' d' d'') : EchoesOnly channel m channel' d d'' := by
  obtain ⟨new, hnew, hreplies⟩ := h
  obtain ⟨new', hnew', hreplies'⟩ := h'
  refine ⟨new ++ new', by rw [hnew', hnew, List.append_assoc], fun reply hreply => ?_⟩
  rcases List.mem_append.mp hreply with hreply | hreply
  · exact hreplies reply hreply
  · exact hreplies' reply hreply

theorem of_replied {r? : Option Reply} (hr : ∀ r, r? = some r → r.Answers channel m)
    (h : Replied channel' r? d d') : EchoesOnly channel m channel' d d' := by
  cases h with
  | quiet _ h => exact h.echoesOnly
  | refused _ _ _ h => exact h.echoesOnly
  | @queued r own hsome hchannel _ hown h =>
    obtain ⟨new, hnew, hdirect⟩ := h.direct
    refine ⟨new, hnew, fun reply hreply token opcode error hdecode => ?_⟩
    obtain rfl := List.mem_singleton.mp (hdirect reply hreply token opcode error hdecode)
    cases hdecode.symm.trans hown
    have hanswers := hr r hsome
    exact ⟨hchannel.symm.trans hanswers.channel, hanswers.token, hanswers.opcode⟩

end EchoesOnly

theorem echoesOnly_handleFrame (hb : d.broker.Coherent) (hl : Linked d) (channel : ChannelId)
    (m : Message) (channel' : ChannelId) :
    EchoesOnly channel m channel' d (d.handleFrame channel m) := by
  by_cases hselects : channel = channel' ∧ d.Selects channel m
  · obtain ⟨rfl, hselects⟩ := hselects
    obtain ⟨uid, hclient⟩ := hselects.1
    obtain ⟨r, hr, hreplied⟩ := handleFrame_selects hb hl hclient hselects
    -- The session is opened first, of which nobody is told.
    have hopened : EchoesOnly channel m channel (d.openSession channel uid)
        (d.handleFrame channel m) :=
      .of_replied (fun r' hr' => Option.some.inj hr' ▸ replyTo?_answers hr) hreplied
    exact hopened
  · have hreplied : Replied channel' (d.replyTo? channel m) d (d.handleFrame channel m) :=
      replied_handleFrame hb hl fun heq hsel => hselects ⟨heq, hsel⟩
    exact .of_replied (fun _ => replyTo?_answers) hreplied

theorem echoesOnly_step (hb : d.broker.Coherent) (hl : Linked d) (channel : ChannelId)
    (m : Message) (channel' : ChannelId) :
    EchoesOnly channel m channel' d (d.step (.frame channel m)) := by
  cases hrunning : d.running with
  | false =>
    rw [step_of_stopped hrunning]
    exact (Hears.refl hb hl).echoesOnly
  | true =>
    have hreaped : Hears channel' [] (d.handleFrame channel m) (d.handleFrame channel m).reapLost :=
      hears_reapRounds (turn_handleFrame hb channel m).coherent
        (linked_handleFrame hb hl channel m).1 _
    have hstep : d.step (.frame channel m) = (d.handleFrame channel m).reapLost := by
      rw [step, hrunning]
      rfl
    rw [hstep]
    exact (echoesOnly_handleFrame hb hl channel m channel').trans hreaped.echoesOnly

end Daemon

namespace TransactionSet

variable {η φ : Type} {s : TransactionSet η φ} {m : Message} {isSelf : Bool}

theorem deliver_cases (r : Reactor η) (s : TransactionSet η φ) (m : Message) (isSelf : Bool) :
    s.deliver r m isSelf = ⟨.unmatched m, none, s⟩ ∨
      ∃ front t back kept, s.items = front ++ t :: back ∧ t.Wants m isSelf ∧
        (s.deliver r m isSelf).set.items = front ++ (Option.toList kept ++ back) := by
  cases hfind : s.items.find? (fun t => decide (t.Wants m isSelf)) with
  | none =>
    left
    refine deliver_of_unwanted r fun t ht => ?_
    simpa using List.find?_eq_none.mp hfind t ht
  | some t =>
    right
    obtain ⟨hwants, front, back, hitems, hfirst⟩ := List.find?_eq_some_iff_append.mp hfind
    have hwants : t.Wants m isSelf := of_decide_eq_true hwants
    have hfirst : ∀ t' ∈ front, ¬t'.Wants m isSelf := by simpa using hfirst
    obtain ⟨p, hp⟩ := Transaction.exists_process r hwants.1 m
    refine ⟨front, t, back, (Place.settled 0 p.transaction).held?, hitems, hwants, ?_⟩
    rw [deliver_of_wanted hitems hfirst hwants hp, ← List.append_assoc]
    exact (settle_spec 0 hitems p.transaction).2

end TransactionSet

/-- The token that is looked up in a message is that of the content, in all that is done by it:
replies to the message and the choice of a transaction for it. Zero stands for no token. -/
structure Message.SpeaksAs (m : Message) (content : Content) : Prop where
  token : m.token? = content.token?
  missing : m.token? = none ↔
    (∃ version minVersion, content = .hello version minVersion) ∨ ∃ kind, content = .retired kind
  /-- Every reply that follows upon the frame goes to its sender, with its token and opcode. -/
  echoed {γ : Type} (settings : DaemonSettings) (events : List (DaemonEvent γ))
      (channel channel' : ChannelId) : ∃ new,
    ((Daemon.new settings).run (events ++ [.frame channel m])).heard channel' =
        ((Daemon.new settings).run events).heard channel' ++ new ∧
      ∀ reply ∈ new, ∀ token opcode error, reply.decode = .ok (.reply token opcode error) →
        channel' = channel ∧ token = content.token?.getD 0 ∧ opcode = content.opcode.code
  /-- The message goes to the first transaction that wants its token and opcode. -/
  routed {η φ : Type} (s : TransactionSet η φ) (isSelf : Bool) :
    s.position? m isSelf =
      s.items.findIdx? (·.wants (content.token?.getD 0) isSelf content.opcode.code)
  touched {η φ : Type} (r : Reactor η) (s : TransactionSet η φ) (isSelf : Bool) :
    s.deliver r m isSelf = ⟨.unmatched m, none, s⟩ ∨
      ∃ front t back kept, s.items = front ++ t :: back ∧ t.token = content.token?.getD 0 ∧
        (s.deliver r m isSelf).set.items = front ++ (Option.toList kept ++ back)

theorem Message.speaksAs_of_decode {m : Message} {content : Content}
    (h : m.decode = .ok content) : m.SpeaksAs content where
  token := token?_of_decode h
  missing := by rw [token?_of_decode h, Content.token?_eq_none]
  echoed settings events channel channel' := by
    obtain ⟨new, hnew, hreplies⟩ := Daemon.echoesOnly_step (Daemon.coherent_run settings events)
      (Daemon.linked_run settings events).1 channel m channel'
    refine ⟨new, by rw [Daemon.run_snoc, hnew], ?_⟩
    rwa [token?_of_decode h, opcode?_of_decode h] at hreplies
  routed s isSelf := by
    rw [TransactionSet.position?, opcode?_of_decode h, token?_of_decode h]
    rfl
  touched r s isSelf := by
    rcases s.deliver_cases r m isSelf with hunmatched | ⟨front, t, back, kept, hitems, hwants, hset⟩
    · exact .inl hunmatched
    · exact .inr ⟨front, t, back, kept, hitems, token?_of_decode h ▸ hwants.2.1, hset⟩

/-- The shortest message with a token, and a retired one with the same bytes in that place. -/
theorem Message.speaksAs_of_decode_shortest :
    (ofBytes [0, 0, 0, 20, 0, 0, 16, 5, 0, 0, 0, 0, 0, 0, 0, 7, 0, 0, 0, 0]).decode =
        .ok (.close 7) ∧
      (ofBytes [0, 0, 0, 20, 0, 0, 16, 5, 0, 0, 0, 0, 0, 0, 0, 7, 0, 0, 0, 0]).token? = some 7 ∧
      (ofBytes [0, 0, 0, 20, 0, 0, 49, 0, 0, 0, 0, 0, 0, 0, 0, 7, 0, 0, 0, 0]).decode =
        .ok (.retired .statistics) ∧
      (ofBytes [0, 0, 0, 20, 0, 0, 49, 0, 0, 0, 0, 0, 0, 0, 0, 7, 0, 0, 0, 0]).token? = none := by
  have hclose : (ofBytes [0, 0, 0, 20, 0, 0, 16, 5, 0, 0, 0, 0, 0, 0, 0, 7, 0, 0, 0, 0]).decode =
      .ok (.close 7) := by decide
  have hretired : (ofBytes [0, 0, 0, 20, 0, 0, 49, 0, 0, 0, 0, 0, 0, 0, 0, 7, 0, 0, 0, 0]).decode =
      .ok (.retired .statistics) := by decide
  exact ⟨hclose, (speaksAs_of_decode hclose).token, hretired, (speaksAs_of_decode hretired).token⟩

end Arbiter
