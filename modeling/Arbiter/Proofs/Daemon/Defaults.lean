import Arbiter.Proofs.Broker.Takers
import Arbiter.Proofs.Daemon.Outbound
import Arbiter.Proofs.Daemon.Reaping

/-!
The default verdict. A question is decided by it at once exactly when it could be given to nobody:
no session subscribed to it, or each that did has an event of the same token pending or a queue that
is closed or full. The daemon does not tell these from one another.
-/

namespace Arbiter

section Queues

variable {depth : Nat} {connections : Connections} {channel : ChannelId} {m : Message}

theorem queues_steady (depth : Nat) : (queues depth).Steady := by
  intro connections channel m e h
  simp only [queues] at h ⊢
  cases hc : connections.get? channel with
  | none => rfl
  | some c =>
    simp only [hc] at h ⊢
    by_cases hroom : c.writable = true ∧ c.queue.length < depth
    · obtain ⟨hopen, hroom⟩ := hroom
      simp [hopen, hroom] at h
    · split
      · rfl
      · rename_i hopen
        rw [if_neg fun hlt => hroom ⟨by simpa using hopen, hlt⟩]

end Queues

namespace Daemon

open Exchange

variable {γ : Type} {d : Daemon γ} {gate : γ} {m : Message} {e : Event}

def pendingQuestion : Message :=
  ⟨#[0, 0, 0, 64, 0, 0, 32, 3, 0, 0, 0, 0, 0, 0, 0, 7, 0, 0, 0, 1, 0, 0, 3, 232, 0, 0, 0, 0, 0, 0,
    0, 1, 0, 0, 0, 0, 0, 0, 0, 0, 0, 0, 0, 0, 0, 0, 0, 0, 0, 0, 0, 0, 0, 0, 0, 0, 0, 0, 0, 0, 225,
    107, 112, 221]⟩

/-- The session can be given the question: it subscribed to it, nothing of the same token is
pending with it, and its queue is open and has room. -/
structure Reaches (d : Daemon γ) (e : Event) (sess : Session) : Prop where
  interested : sess.interested e.key = true
  free : sess.pending.get? e.token = none
  room : ∃ c, d.connections.get? sess.channel = some c ∧ c.writable = true ∧
    c.queue.length < d.settings.outboundQueueDepth

theorem takes_admitted (hask : e.needsVerdict = true) (s : SessionId) :
    Takes d.transport ⟨d.broker.nextId⟩ (d.admitted m e).exchange s ↔
      ∃ sess, d.broker.sessions.get? s = some sess ∧ d.Reaches e sess := by
  have hhead : (d.admitted m e).exchange.broker.heads.get? ⟨d.broker.nextId⟩ =
      some (.new m e none) :=
    (d.broker.get?_withHead m e _).trans (if_pos rfl)
  have hkind : (Head.new m e none : Head γ).kind = .ask := kind_eq_ask.mpr hask
  constructor
  · intro htakes
    obtain ⟨sess, h, hs, -⟩ := id htakes
    obtain ⟨hkey, hfree, hsend⟩ := (takes_iff hs hhead).mp htakes
    exact ⟨sess, hs, hkey, hfree hkind, queues_send_eq_ok.mp hsend⟩
  · rintro ⟨sess, hs, hkey, hfree, hroom⟩
    have hs : (d.admitted m e).exchange.broker.sessions.get? s = some sess := hs
    exact (takes_iff hs hhead).mpr ⟨hkey, fun _ => hfree, queues_send_eq_ok.mpr hroom⟩

theorem handleGate_verdicts (hm : m.decode = .ok (.event e)) (hask : e.needsVerdict = true)
    (gate : γ) : ∃ n,
      ((d.admitted m e).exchange.dispatchAll d.transport ⟨d.broker.nextId⟩).1 = .ok n ∧
      (d.handleGate gate m).log.verdicts =
        d.log.verdicts ++ if n = 0 then [(gate, d.settings.verdict)] else [] := by
  obtain ⟨n, h, hresult, ho, -, hinstances⟩ := d.exists_offered m e
  have hlog : ((d.admitted m e).absorb
      ((d.admitted m e).exchange.dispatchAll d.transport ⟨d.broker.nextId⟩).2).log.verdicts =
      d.log.verdicts := by
    rw [ho.log]
  refine ⟨n, hresult, ?_⟩
  rw [handleGate_of_event hm]
  simp only [hresult, Option.some.injEq, kind_eq_ask, hask, true_and]
  cases n with
  | zero =>
    simp only [Nat.lt_irrefl, ↓reduceIte, answerAtOnce, kind_eq_ask, Option.some.injEq, hask]
    split <;> rw [giveVerdict, hlog] <;> rfl
  | succ n =>
    simp only [Nat.zero_lt_succ, ↓reduceIte, Nat.succ_ne_zero, List.append_nil]
    split <;> exact hlog

/-- How a question is decided at first. -/
structure Decides (d : Daemon γ) (gate : γ) (m : Message) (e : Event) : Prop where
  /-- It is decided by the default if it can be given to nobody. -/
  default : (∀ s sess, d.broker.sessions.get? s = some sess → ¬d.Reaches e sess) →
    (d.handleGate gate m).log.verdicts = d.log.verdicts ++ [(gate, d.settings.verdict)]
  /-- If it can be given to anybody then its gate waits. -/
  waiting {s sess} : d.broker.sessions.get? s = some sess → d.Reaches e sess →
    (d.handleGate gate m).log.verdicts = d.log.verdicts ∧
      ∃ id h, (d.handleGate gate m).broker.heads.get? id = some h ∧ h.waiter = some gate

theorem decides (hlost : d.broker.lostSessions = []) (gate : γ)
    (hm : m.decode = .ok (.event e)) (hask : e.needsVerdict = true) : d.Decides gate m e := by
  obtain ⟨n, hn, hverdicts⟩ := handleGate_verdicts (d := d) hm hask gate
  have hhead : (d.admitted m e).exchange.broker.heads.get? ⟨d.broker.nextId⟩ =
      some (.new m e none) :=
    (d.broker.get?_withHead m e _).trans (if_pos rfl)
  have hcount := dispatchAll_eq_zero (queues_steady _) hhead hn
  have hreachable {s : SessionId} : s ∈ d.broker.reachableSessions ↔
      ∃ sess, d.broker.sessions.get? s = some sess := by
    constructor
    · intro hs
      obtain ⟨⟨s', sess⟩, hmem, rfl⟩ := List.mem_map.mp hs
      exact ⟨sess, Table.get?_eq_some.mpr (List.mem_of_mem_filter hmem)⟩
    · rintro ⟨sess, hs⟩
      have hfound := Broker.lost_of_lostSessions hlost hs
      exact List.mem_map.mpr ⟨(s, sess),
        List.mem_filter.mpr ⟨Table.get?_eq_some.mp hs, by simp [hfound]⟩, rfl⟩
  constructor
  · intro hnobody
    have hzero : n = 0 := hcount.mpr fun s _ htakes => by
      obtain ⟨sess, hs, hreaches⟩ := (takes_admitted hask s).mp htakes
      exact hnobody s sess hs hreaches
    rw [hverdicts, if_pos hzero]
  · intro s sess hs hreaches
    have hpos : n ≠ 0 := fun hzero => hcount.mp hzero s (hreachable.mpr ⟨sess, hs⟩)
      ((takes_admitted hask s).mpr ⟨sess, hs, hreaches⟩)
    rw [if_neg hpos, List.append_nil] at hverdicts
    refine ⟨hverdicts, ?_⟩
    have hd := handled d gate m
    generalize d.handleGate gate m = d' at hd hverdicts
    cases hd with
    | malformed hm' => exact absurd hm (hm' e)
    | waiting _ _ ho _ =>
      exact ⟨_, _, (Table.get?_modify_of_get? ho.present _ _).trans (if_pos rfl), rfl⟩
    | @answered e' x h v _ _ ho _ =>
      -- An answer given at once would stand in the log.
      have hlog : ((d.admitted m e').absorb x).log.verdicts = d.log.verdicts := by
        rw [ho.log]
      have hgiven : ((d.admitted m e').absorb x).log.verdicts ++ [(gate, v)] = d.log.verdicts :=
        hverdicts
      rw [hlog] at hgiven
      exact absurd hgiven (by simp)

/-- In a daemon that serves a question is decided by the default exactly when it can be given to
nobody, subscribed or not. -/
theorem decides_run (settings : DaemonSettings) (events : List (DaemonEvent γ))
    (hrunning : ((new settings).run events).running = true) (gate : γ)
    (hm : m.decode = .ok (.event e)) (hask : e.needsVerdict = true) :
    ((new settings).run events).Decides gate m e :=
  decides (lostSessions_run settings events hrunning) gate hm hask

def allowing : DaemonSettings := { DaemonSettings.default with defaultVerdict := 0 }

def subscribed : Daemon Nat := (new allowing).run rootSubscription

def askedOnce : Daemon Nat := (new allowing).run (rootSubscription ++ [.gate 0 pendingQuestion])

theorem decode_pendingQuestion : pendingQuestion.decode =
    .ok (.event ⟨true, 7, 1, 1000, 0, 1, 0, [], none, []⟩) := by
  have hdecode : pendingQuestion.decode.toOption =
      some (.event ⟨true, 7, 1, 1000, 0, 1, 0, [], none, []⟩) := by decide +kernel
  cases hcontent : pendingQuestion.decode with
  | error fault =>
    rw [hcontent] at hdecode
    cases hdecode
  | ok content =>
    rw [hcontent] at hdecode
    exact congrArg Except.ok (Option.some.inj hdecode)

set_option maxRecDepth 100000 in
theorem askedOnce_pending : askedOnce.running = true ∧
    askedOnce.settings.verdict = allowing.verdict ∧
    (∀ entry ∈ askedOnce.broker.sessions.entries, (entry.2.pending.get? 7).isSome = true) ∧
    ∃ sess, askedOnce.broker.sessions.get? ⟨1⟩ = some sess ∧
      sess.interested ⟨1000, 0, 1⟩ = true := by
  have hfacts : askedOnce.running = true ∧ askedOnce.settings.verdict = allowing.verdict ∧
      askedOnce.broker.sessions.entries.all (fun entry => (entry.2.pending.get? 7).isSome) = true ∧
      (askedOnce.broker.sessions.get? ⟨1⟩).any (·.interested ⟨1000, 0, 1⟩) = true := by
    decide +kernel
  obtain ⟨hrunning, hverdict, hall, hany⟩ := hfacts
  exact ⟨hrunning, hverdict, List.all_eq_true.mp hall, (Option.any_eq_true _ _).mp hany⟩

theorem not_reaches_askedOnce {e : Event} (he : e.token = 7) (s : SessionId) (sess : Session)
    (hs : askedOnce.broker.sessions.get? s = some sess) : ¬askedOnce.Reaches e sess := by
  intro hreaches
  have hpending := askedOnce_pending.2.2.1 _ (Table.get?_eq_some.mp hs)
  have hfree := hreaches.free
  rw [he] at hfree
  simp [hfree] at hpending

set_option maxRecDepth 100000 in
/-- The one subscriber can be given the question, so its gate waits. The same question asked again
while it is pending can be given to nobody, and the action is allowed by default. -/
theorem decides_run_subscribed :
    (subscribed.handleGate 0 pendingQuestion).log.verdicts = subscribed.log.verdicts ∧
      (∃ id h, (subscribed.handleGate 0 pendingQuestion).broker.heads.get? id = some h ∧
        h.waiter = some 0) ∧
      (askedOnce.handleGate 1 pendingQuestion).log.verdicts =
        askedOnce.log.verdicts ++ [(1, allowing.verdict)] := by
  have hfacts : subscribed.running = true ∧ (subscribed.broker.sessions.get? ⟨1⟩).any (fun sess =>
      sess.interested ⟨1000, 0, 1⟩ && (sess.pending.get? 7).isNone &&
        (subscribed.connections.get? sess.channel).any fun c =>
          c.writable && decide (c.queue.length < subscribed.settings.outboundQueueDepth)) =
        true := by
    decide +kernel
  obtain ⟨hrunning, hfound⟩ := hfacts
  obtain ⟨sess, hs, hsess⟩ := (Option.any_eq_true _ _).mp hfound
  simp only [Bool.and_eq_true, Option.isNone_iff_eq_none, Option.any_eq_true,
    decide_eq_true_eq] at hsess
  obtain ⟨⟨hkey, hfree⟩, hroom⟩ := hsess
  have hfirst : subscribed.Decides 0 pendingQuestion _ :=
    decides_run allowing rootSubscription hrunning 0 decode_pendingQuestion rfl
  have hagain : askedOnce.Decides 1 pendingQuestion _ :=
    decides_run allowing _ askedOnce_pending.1 1 decode_pendingQuestion rfl
  obtain ⟨hverdicts, hwaits⟩ := hfirst.waiting hs ⟨hkey, hfree, hroom⟩
  have hdefault := hagain.default (not_reaches_askedOnce rfl)
  rw [askedOnce_pending.2.1] at hdefault
  exact ⟨hverdicts, hwaits, hdefault⟩

/-- The same question asked again while it is pending with its one subscriber: the action is allowed
by default. -/
theorem not_default_unheard : ¬∀ (settings : DaemonSettings) (events : List (DaemonEvent Nat))
    (gate : Nat) (m : Message) (e : Event), ((new settings).run events).running = true →
    m.decode = .ok (.event e) → e.needsVerdict = true →
    (((new settings).run events).handleGate gate m).log.verdicts =
      ((new settings).run events).log.verdicts ++ [(gate, settings.verdict)] →
    ∀ s sess, ((new settings).run events).broker.sessions.get? s = some sess →
      sess.interested e.key = false := by
  intro h
  obtain ⟨hrunning, hverdict, -, sess, hs, hkey⟩ := askedOnce_pending
  have hlost : askedOnce.broker.lostSessions = [] := lostSessions_run allowing _ hrunning
  have hverdicts := (decides hlost 1 decode_pendingQuestion rfl).default
    (not_reaches_askedOnce rfl)
  rw [hverdict] at hverdicts
  have hnot e := h allowing (rootSubscription ++ [.gate 0 pendingQuestion]) 1 pendingQuestion e
  rw [← askedOnce] at hnot
  have hunheard := hnot _ hrunning decode_pendingQuestion rfl hverdicts ⟨1⟩ sess hs
  exact Bool.false_ne_true (hunheard.symm.trans hkey)

end Daemon

end Arbiter
