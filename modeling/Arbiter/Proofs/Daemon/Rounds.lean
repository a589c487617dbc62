import Arbiter.Proofs.Broker.Losses
import Arbiter.Proofs.Daemon.Hearing

/-!
Rounds of reaping. A round ends the sessions that are lost when it begins, each with its connection,
and may lose others, which the next round ends; a round that finds none is the last. So reaping ends
the sessions that cannot be told how an event ended, and only those. It does so after every event
that a daemon handles.
-/

namespace Arbiter

namespace Connection

def extend (added : List Message) (c : Connection) : Connection :=
  { c with queue := c.queue ++ added }

theorem map_extend_nil (c? : Option Connection) : c?.map (extend []) = c? := by
  have hid : extend [] = id := funext fun c => by rw [extend, List.append_nil, id]
  rw [hid, Option.map_id_fun, id]

theorem map_extend_append (c? : Option Connection) (added added' : List Message) :
    c?.map (extend (added ++ added')) = (c?.map (extend added)).map (extend added') := by
  rw [Option.map_map]
  refine congrArg (Option.map · c?) (funext fun c => ?_)
  rw [Function.comp, extend, extend, extend, List.append_assoc]

theorem bind_session_extend (c? : Option Connection) (added : List Message) :
    (c?.map (extend added)).bind session = c?.bind session := by
  cases c? <;> rfl

end Connection

theorem queues_extend (depth : Nat) (connections : Connections) (channel channel' : ChannelId)
    (m : Message) : ∃ added, ((queues depth).send connections channel m).2.get? channel' =
      (connections.get? channel').map (Connection.extend added) := by
  have hsame : ∃ added, connections.get? channel' =
      (connections.get? channel').map (Connection.extend added) :=
    ⟨[], (Connection.map_extend_nil _).symm⟩
  simp only [queues]
  split
  · exact hsame
  · split
    · exact hsame
    · split
      · rw [Table.get?_modify]
        split
        · exact ⟨[m], rfl⟩
        · exact hsame
      · exact hsame

theorem carries_extend {depth : Nat} {connections connections' : Connections}
    (h : (queues depth).Carries connections connections') (channel : ChannelId) :
    ∃ added, connections'.get? channel =
      (connections.get? channel).map (Connection.extend added) := by
  induction h with
  | refl => exact ⟨[], (Connection.map_extend_nil _).symm⟩
  | tail _ hsend ih =>
    obtain ⟨channel', m, rfl⟩ := hsend
    obtain ⟨before, hbefore⟩ := ih
    obtain ⟨last, hlast⟩ := queues_extend depth _ channel' channel m
    exact ⟨before ++ last, by rw [hlast, hbefore, Connection.map_extend_append]⟩

namespace Daemon

variable {γ : Type} {d d' d'' : Daemon γ}

def holder (d : Daemon γ) (channel : ChannelId) : Option SessionId :=
  (d.connections.get? channel).bind Connection.session

/-- A session is on the one connection that has it, and a connection with a session has one that is
there. -/
def Paired (d : Daemon γ) : Prop := ∀ s channel,
  (d.broker.sessions.get? s).map Session.channel = some channel ↔ d.holder channel = some s

theorem Linked.paired (hl : Linked d) : d.Paired := by
  intro s channel
  constructor
  · intro hchannel
    obtain ⟨sess, hs, rfl⟩ := Option.map_eq_some_iff.mp hchannel
    have hmember : d.member s = some (sess.uid, sess.channel) := by rw [member, hs, Option.map_some]
    obtain ⟨c, hc, -, hsession⟩ := get?_of_client (hl.linked.mp hmember)
    rw [holder, hc, Option.bind_some, hsession]
  · intro hholder
    obtain ⟨c, hc, hsession⟩ := Option.bind_eq_some_iff.mp hholder
    have hmember := hl.linked.mpr (hsession ▸ client_of_get? hc)
    obtain ⟨sess, hs, hsame⟩ := Option.map_eq_some_iff.mp hmember
    rw [hs, Option.map_some]
    exact congrArg (fun client => some client.2) hsame

/-- The daemon when a session is about to end: the connection that has it is gone. -/
def parted (d : Daemon γ) (s : SessionId) : Daemon γ :=
  match d.connections.entries.find? (·.2.session = some s) with
  | some (channel, _) => d.disconnect channel
  | none => d

def reapSends (d : Daemon γ) (s : SessionId) : List Send :=
  ((d.parted s).exchange.teardown (d.parted s).transport s).2.sends

theorem reap_eq (d : Daemon γ) (s : SessionId) :
    d.reap s = (d.parted s).operate (.teardown s) := by
  unfold reap parted
  cases hfind : d.connections.entries.find? (·.2.session = some s) with
  | none => rfl
  | some found =>
    have hc : d.connections.get? found.1 = some found.2 :=
      Table.get?_eq_some.mpr (List.mem_of_find?_eq_some hfind)
    exact close_of_member hc (by simpa using List.find?_some hfind)

theorem parted_broker (d : Daemon γ) (s : SessionId) : (d.parted s).broker = d.broker := by
  unfold parted
  split <;> rfl

theorem parted_queued (d : Daemon γ) (s : SessionId) :
    (d.parted s).log.queued = d.log.queued := by
  unfold parted
  split <;> rfl

theorem Paired.parted_connections (hd : d.Paired) (s : SessionId) (channel : ChannelId) :
    (d.parted s).connections.get? channel =
      if d.holder channel = some s then none else d.connections.get? channel := by
  unfold parted
  cases hfind : d.connections.entries.find? (·.2.session = some s) with
  | none =>
    rw [if_neg fun hholder => ?_]
    obtain ⟨c, hc, hsession⟩ := Option.bind_eq_some_iff.mp hholder
    have hnot := List.find?_eq_none.mp hfind _ (Table.get?_eq_some.mp hc)
    exact hnot (decide_eq_true hsession)
  | some found =>
    have hc : d.connections.get? found.1 = some found.2 :=
      Table.get?_eq_some.mpr (List.mem_of_find?_eq_some hfind)
    have hsession : found.2.session = some s := by simpa using List.find?_some hfind
    have hfound : d.holder found.1 = some s := by rw [holder, hc, Option.bind_some, hsession]
    -- Only the first connection that has the session goes, but no other has it.
    have hwhich : channel = found.1 ↔ d.holder channel = some s := by
      refine ⟨fun hsame => hsame ▸ hfound, fun hholder => ?_⟩
      exact Option.some.inj (((hd s channel).mpr hholder).symm.trans ((hd s found.1).mpr hfound))
    exact (Table.get?_erase ..).trans (if_congr hwhich rfl rfl)

/-- From `d` to `d'` the sessions listed ended, each with its connection, while the sends were made:
results for sessions on their channels. No other session ended, but those were lost to which one of
the sends was refused; and of the other connections, only the queues grew. -/
structure Reaps (ended : List SessionId) (sends : List Send) (d d' : Daemon γ) : Prop where
  queued : d'.log.queued = d.log.queued ++ sends.filter (·.result.isOk)
  gone {s : SessionId} : s ∈ ended → d'.broker.sessions.get? s = none
  survives {s : SessionId} : s ∉ ended → Session.Survives (refused s sends)
    (d.broker.sessions.get? s) (d'.broker.sessions.get? s)
  closed {s : SessionId} {channel : ChannelId} : s ∈ ended → d.holder channel = some s →
    d'.connections.get? channel = none
  kept {channel : ChannelId} : (∀ s ∈ ended, d.holder channel ≠ some s) →
    ∃ added, d'.connections.get? channel =
      (d.connections.get? channel).map (Connection.extend added)
  addressed {send : Send} : send ∈ sends → ∃ s sess, send.purpose.tells s = true ∧
    d.broker.sessions.get? s = some sess ∧ send.channel = sess.channel

theorem reaps_reap (hd : d.Paired) (s : SessionId) : Reaps [s] (d.reapSends s) d (d.reap s) := by
  obtain ⟨new, hloses⟩ := Exchange.teardown_loses (d.parted s).transport (d.parted s).exchange s
  have hnew : d.reapSends s = new := hloses.sends
  have hsession (s' : SessionId) : ((d.parted s).broker.sessions.erase s).get? s' =
      if s' = s then none else d.broker.sessions.get? s' := by
    rw [parted_broker, Table.get?_erase]
  have hsurvives (s' : SessionId) : Session.Survives (refused s' new)
      (((d.parted s).broker.sessions.erase s).get? s') ((d.reap s).broker.sessions.get? s') := by
    rw [reap_eq]
    exact hloses.sessions s'
  have hqueue (channel : ChannelId) : ∃ added, (d.reap s).connections.get? channel =
      ((d.parted s).connections.get? channel).map (Connection.extend added) := by
    rw [reap_eq]
    exact carries_extend (Exchange.perform_carries _ (d.parted s).exchange (.teardown s)) channel
  rw [hnew]
  constructor
  · rw [reap_eq, ← parted_queued d s, ← hnew]
    exact congrArg DaemonLog.queued (absorb_log ..)
  · intro s' hs'
    exact (hsurvives s').eq_none ((hsession s').trans (if_pos (List.mem_singleton.mp hs')))
  · intro s' hs'
    have hother := hsurvives s'
    rwa [hsession, if_neg fun hsame => hs' (List.mem_singleton.mpr hsame)] at hother
  · intro s' channel hs' hholder
    obtain rfl := List.mem_singleton.mp hs'
    obtain ⟨added, hadded⟩ := hqueue channel
    rw [hadded, hd.parted_connections, if_pos hholder, Option.map_none]
  · intro channel hothers
    obtain ⟨added, hadded⟩ := hqueue channel
    rw [hd.parted_connections, if_neg (hothers s (List.mem_singleton_self s))] at hadded
    exact ⟨added, hadded⟩
  · intro send hsend
    obtain ⟨s', sess, htells, hs', hchannel⟩ := hloses.addressed hsend
    refine ⟨s', sess, htells, ?_, hchannel⟩
    have hs' := (hsession s').symm.trans hs'
    split at hs'
    · cases hs'
    · exact hs'

namespace Reaps

variable {ended ended' : List SessionId} {sends sends' : List Send}

theorem refl (d : Daemon γ) : Reaps [] [] d d where
  queued := (List.append_nil _).symm
  gone h := nomatch h
  survives _ := .refl _
  closed h := nomatch h
  kept _ := ⟨[], (Connection.map_extend_nil _).symm⟩
  addressed h := nomatch h

theorem get?_eq_none (h : Reaps ended sends d d') {s : SessionId}
    (hs : d.broker.sessions.get? s = none) : d'.broker.sessions.get? s = none := by
  by_cases hmem : s ∈ ended
  · exact h.gone hmem
  · exact (h.survives hmem).eq_none hs

theorem holder_eq_some (h : Reaps ended sends d d') {s : SessionId} {channel : ChannelId} :
    d'.holder channel = some s ↔ s ∉ ended ∧ d.holder channel = some s := by
  by_cases hended : ∀ s ∈ ended, d.holder channel ≠ some s
  · obtain ⟨added, hadded⟩ := h.kept hended
    have hsame : d'.holder channel = d.holder channel := by
      rw [holder, hadded, Connection.bind_session_extend, holder]
    rw [hsame]
    exact ⟨fun hs => ⟨fun hmem => hended s hmem hs, hs⟩, fun hs => hs.2⟩
  · push Not at hended
    obtain ⟨s', hs', hholder⟩ := hended
    have hnone : d'.holder channel = none := by rw [holder, h.closed hs' hholder, Option.bind_none]
    rw [hnone, hholder]
    refine ⟨fun hs => (nomatch hs), fun ⟨hs, hsame⟩ => absurd hs' ?_⟩
    rwa [Option.some.inj hsame]

theorem paired (h : Reaps ended sends d d') (hd : d.Paired) : d'.Paired := by
  intro s channel
  rw [h.holder_eq_some, ← hd s channel]
  by_cases hs : s ∈ ended
  · rw [h.gone hs]
    simp [hs]
  · rw [(h.survives hs).map_channel]
    simp [hs]

theorem trans (h : Reaps ended sends d d') (h' : Reaps ended' sends' d' d'') :
    Reaps (ended ++ ended') (sends ++ sends') d d'' where
  queued := by rw [h'.queued, h.queued, List.filter_append, List.append_assoc]
  gone {s} hs := by
    rcases List.mem_append.mp hs with hs | hs
    · exact h'.get?_eq_none (h.gone hs)
    · exact h'.gone hs
  survives {s} hs := by
    obtain ⟨hs, hs'⟩ := not_or.mp (mt List.mem_append.mpr hs)
    rw [refused_append]
    exact (h.survives hs).trans (h'.survives hs')
  closed {s channel} hs hholder := by
    by_cases hfirst : s ∈ ended
    · have hclosed := h.closed hfirst hholder
      have hnone : d'.holder channel = none := by rw [holder, hclosed, Option.bind_none]
      obtain ⟨added, hadded⟩ := h'.kept fun s _ hsome => nomatch hnone.symm.trans hsome
      rw [hadded, hclosed, Option.map_none]
    · exact h'.closed ((List.mem_append.mp hs).resolve_left hfirst)
        (h.holder_eq_some.mpr ⟨hfirst, hholder⟩)
  kept {channel} hothers := by
    obtain ⟨added, hadded⟩ := h.kept fun s hs => hothers s (List.mem_append_left _ hs)
    obtain ⟨added', hadded'⟩ := h'.kept fun s hs hholder =>
      hothers s (List.mem_append_right _ hs) (h.holder_eq_some.mp hholder).2
    exact ⟨added ++ added', by rw [hadded', hadded, Connection.map_extend_append]⟩
  addressed {send} hsend := by
    rcases List.mem_append.mp hsend with hsend | hsend
    · exact h.addressed hsend
    · obtain ⟨s, sess', htells, hs', hchannel⟩ := h'.addressed hsend
      have hs : s ∉ ended := fun hs => by
        rw [h.gone hs] at hs'
        cases hs'
      obtain ⟨sess, hsess, hprofile, -⟩ := (h.survives hs).exists_before hs'
      exact ⟨s, sess, htells, hsess, hchannel.trans (Session.channel_of_profile hprofile)⟩

theorem size_lt (h : Reaps ended sends d d') {s : SessionId} (hs : s ∈ ended)
    (hpresent : d.broker.sessions.get? s ≠ none) :
    d'.broker.sessions.size < d.broker.sessions.size :=
  Table.size_lt hpresent (h.gone hs) fun _ hs' hnone => hs' (h.get?_eq_none hnone)

end Reaps

def roundSends : List SessionId → Daemon γ → List Send
  | [], _ => []
  | s :: lost, d => d.reapSends s ++ roundSends lost (d.reap s)

theorem reaps_foldl (hd : d.Paired) (lost : List SessionId) :
    Reaps lost (roundSends lost d) d (lost.foldl reap d) := by
  induction lost generalizing d with
  | nil => exact .refl d
  | cons s lost ih =>
    have hfirst := reaps_reap hd s
    exact hfirst.trans (ih (hfirst.paired hd))

/-- So many rounds, each of which found lost sessions, made the sends and left `d'`, where the next
one finds none. -/
inductive Rounds : Nat → List Send → Daemon γ → Daemon γ → Prop where
  | done {d : Daemon γ} (hnone : d.broker.lostSessions = []) : Rounds 0 [] d d
  | round {n : Nat} {sends : List Send} {d d' : Daemon γ} (hsome : d.broker.lostSessions ≠ [])
      (hrest : Rounds n sends (d.broker.lostSessions.foldl reap d) d') :
      Rounds (n + 1) (roundSends d.broker.lostSessions d ++ sends) d d'

theorem rounds_reapRounds (hd : d.Paired) {bound : Nat} (hbound : d.broker.sessions.size ≤ bound) :
    ∃ n sends, n ≤ d.broker.sessions.size ∧ Rounds n sends d (reapRounds bound d) := by
  -- Every round ends a session, so a bound as large as their number stops no round.
  induction bound generalizing d with
  | zero =>
    have hempty : d.broker.sessions.entries = [] :=
      List.eq_nil_of_length_eq_zero (Nat.le_zero.mp hbound)
    refine ⟨0, [], Nat.zero_le _, .done ?_⟩
    rw [Broker.lostSessions, hempty]
    rfl
  | succ bound ih =>
    unfold reapRounds
    split
    · rename_i hlost
      exact ⟨0, [], Nat.zero_le _, .done hlost⟩
    · rename_i hlost
      obtain ⟨s, hs⟩ := List.exists_mem_of_ne_nil _ hlost
      have hreaps := reaps_foldl hd d.broker.lostSessions
      have hless := hreaps.size_lt hs (Broker.lostSessions_present hs)
      obtain ⟨n, sends, hn, hrounds⟩ := ih (hreaps.paired hd) (by omega)
      exact ⟨n + 1, _, by omega, .round hlost hrounds⟩

theorem Rounds.lostSessions {n : Nat} {sends : List Send} (h : Rounds n sends d d') :
    d'.broker.lostSessions = [] := by
  induction h with
  | done hnone => exact hnone
  | round _ _ ih => exact ih

theorem Rounds.reaps {n : Nat} {sends : List Send} (h : Rounds n sends d d') (hd : d.Paired) :
    ∃ ended, Reaps ended sends d d' ∧ ∀ s ∈ ended, ∃ sess,
      d.broker.sessions.get? s = some sess ∧ (sess.lost || refused s sends) = true := by
  induction h with
  | done => exact ⟨[], .refl _, fun s hs => nomatch hs⟩
  | @round n sends d d' _ _ ih =>
    have hround := reaps_foldl hd d.broker.lostSessions
    obtain ⟨ended, hrest, hcause⟩ := ih (hround.paired hd)
    refine ⟨_, hround.trans hrest, fun s hs => ?_⟩
    -- What ends in a later round was there in this one, and is lost by then or afterwards.
    by_cases hlost : s ∈ d.broker.lostSessions
    · obtain ⟨⟨s', sess⟩, hmem, rfl⟩ := List.mem_map.mp hlost
      obtain ⟨hmem, hflag⟩ := List.mem_filter.mp hmem
      refine ⟨sess, Table.get?_eq_some.mpr hmem, ?_⟩
      rw [show sess.lost = true from hflag, Bool.true_or]
    · obtain ⟨sess', hs', hcause'⟩ := hcause s ((List.mem_append.mp hs).resolve_left hlost)
      obtain ⟨sess, hsess, -, hflag⟩ := (hround.survives hlost).exists_before hs'
      refine ⟨sess, hsess, ?_⟩
      rwa [hflag, Bool.or_assoc, ← refused_append] at hcause'

theorem Reaps.mem_ended {ended : List SessionId} {sends : List Send} (h : Reaps ended sends d d')
    (hnone : d'.broker.lostSessions = []) {s : SessionId} {sess : Session}
    (hs : d.broker.sessions.get? s = some sess) (hlost : (sess.lost || refused s sends) = true) :
    s ∈ ended := by
  by_contra hmem
  obtain ⟨sess', hs', -, hflag⟩ := (h.survives hmem).exists_now hs
  rw [hlost, Broker.lost_of_lostSessions hnone hs'] at hflag
  cases hflag

/-- From `d` to `d'`, while the sends were made, those sessions ended that were lost or to which one
of the sends was refused, each with its connection. No session is lost any more, and every other
session is as it was and on its connection, to whose queue at most something was added. -/
structure Purged (sends : List Send) (d d' : Daemon γ) : Prop where
  paired : d'.Paired
  unflagged : d'.broker.lostSessions = []
  queued : d'.log.queued = d.log.queued ++ sends.filter (·.result.isOk)
  addressed {send : Send} : send ∈ sends → ∃ s sess, send.purpose.tells s = true ∧
    d.broker.sessions.get? s = some sess ∧ send.channel = sess.channel
  dropped {s : SessionId} {sess : Session} : d.broker.sessions.get? s = some sess →
    sess.lost = true ∨ refused s sends = true →
    d'.broker.sessions.get? s = none ∧ d'.connections.get? sess.channel = none
  kept {s : SessionId} {sess : Session} : d.broker.sessions.get? s = some sess →
    sess.lost = false → refused s sends = false →
    ∃ sess' c added, d'.broker.sessions.get? s = some sess' ∧ sess'.profile = sess.profile ∧
      sess'.lost = false ∧ d.connections.get? sess.channel = some c ∧ c.session = some s ∧
      d'.connections.get? sess.channel = some (c.extend added)
  unopened {s : SessionId} : d.broker.sessions.get? s = none → d'.broker.sessions.get? s = none
  newcomers {channel : ChannelId} : d.holder channel = none →
    ∃ added, d'.connections.get? channel =
      (d.connections.get? channel).map (Connection.extend added)

theorem Rounds.purged {n : Nat} {sends : List Send} (h : Rounds n sends d d') (hd : d.Paired) :
    Purged sends d d' := by
  obtain ⟨ended, hreaps, hcause⟩ := h.reaps hd
  have hholder {s : SessionId} {sess : Session} (hs : d.broker.sessions.get? s = some sess) :
      d.holder sess.channel = some s := (hd s sess.channel).mp (by rw [hs, Option.map_some])
  constructor
  case paired => exact hreaps.paired hd
  case unflagged => exact h.lostSessions
  case queued => exact hreaps.queued
  case addressed => exact hreaps.addressed
  case dropped =>
    intro s sess hs hlost
    have hmem := hreaps.mem_ended h.lostSessions hs (Bool.or_eq_true_iff.mpr hlost)
    exact ⟨hreaps.gone hmem, hreaps.closed hmem (hholder hs)⟩
  case kept =>
    intro s sess hs hlost hrefused
    have hmem : s ∉ ended := fun hmem => by
      obtain ⟨sess₀, hs₀, hflag⟩ := hcause s hmem
      rw [← Option.some.inj (hs.symm.trans hs₀), hlost, hrefused] at hflag
      cases hflag
    obtain ⟨sess', hs', hprofile, hflag⟩ := (hreaps.survives hmem).exists_now hs
    obtain ⟨c, hc, hsession⟩ := Option.bind_eq_some_iff.mp (hholder hs)
    have hothers : ∀ s' ∈ ended, d.holder sess.channel ≠ some s' := fun s' hs' hother =>
      hmem (Option.some.inj ((hholder hs).symm.trans hother) ▸ hs')
    obtain ⟨added, hadded⟩ := hreaps.kept hothers
    rw [hc, Option.map_some] at hadded
    rw [hlost, hrefused, Bool.or_false] at hflag
    exact ⟨sess', c, added, hs', hprofile, hflag, hc, hsession, hadded⟩
  case unopened => exact hreaps.get?_eq_none
  case newcomers => exact fun hnone => hreaps.kept fun s _ hsome => nomatch hnone.symm.trans hsome

/-- Reaping ends, after no more rounds than there are sessions, and drops the sessions that cannot
be reached, with their connections, and no others. -/
theorem purged_reapLost (hd : d.Paired) : ∃ n sends,
    n ≤ d.broker.sessions.size ∧ Rounds n sends d d.reapLost ∧ Purged sends d d.reapLost := by
  obtain ⟨n, sends, hn, hrounds⟩ := rounds_reapRounds hd (Nat.le_refl _)
  exact ⟨n, sends, hn, hrounds, hrounds.purged hd⟩

/-- Two clients that are no longer written to, the first already lost. Both hold an event that the
second left to the first, so that it ends with the first session and the second is to be told. -/
def cascade : Daemon Unit where
  settings := .default
  broker := {
    sessions := (Table.empty.insert ⟨1⟩ { Session.new 0 ⟨1⟩ Broker.defaultSettledCapacity with
      pending := Table.empty.insert 7 ⟨4⟩, lost := true }).insert ⟨2⟩
      { Session.new 0 ⟨2⟩ Broker.defaultSettledCapacity with
        pending := Table.empty.insert 7 ⟨5⟩ }
    heads := Table.empty.insert ⟨3⟩ {
      message := default, token := 7, key := default, kind := .ask, verdict := some .allow
      decider := some ⟨⟨5⟩, 0⟩, live := 1, instances := [⟨4⟩, ⟨5⟩], waiter := some () }
    instances := (Table.empty.insert ⟨4⟩ (.new 7 ⟨1⟩ ⟨3⟩)).insert ⟨5⟩
      (Instance.new 7 ⟨2⟩ ⟨3⟩).giveVerdict
    nextId := 6
    settledCapacity := Broker.defaultSettledCapacity }
  connections := (Table.empty.insert ⟨1⟩ ⟨0, some ⟨1⟩, [], false⟩).insert ⟨2⟩
    ⟨0, some ⟨2⟩, [], false⟩
  nextChannel := 3
  running := true
  log := .empty

theorem cascade_paired : cascade.Paired := by
  intro s channel
  simp only [cascade, holder, Table.get?_insert, Table.get?_empty]
  by_cases hfirst : s = ⟨1⟩ <;> by_cases hsecond : s = ⟨2⟩ <;>
    by_cases hfirst' : channel = ⟨1⟩ <;> by_cases hsecond' : channel = ⟨2⟩ <;>
    simp_all [Session.new, eq_comm]

theorem purged_reapLost_cascade : cascade.Paired ∧ ∃ n sends,
    n ≤ 2 ∧ Rounds n sends cascade cascade.reapLost ∧ Purged sends cascade cascade.reapLost :=
  ⟨cascade_paired, purged_reapLost cascade_paired⟩

example : cascade.reapLost.broker.sessions.keys = [] ∧ cascade.reapLost.connections.keys = [] ∧
    cascade.reapLost.log.verdicts = [((), .allow)] := by decide +kernel

def handled? (d : Daemon γ) : DaemonEvent γ → Option (Daemon γ)
  | .accept uid => some (d.accept uid)
  | .frame channel m => some (d.handleFrame channel m)
  | .hangUp channel => some (d.close channel)
  | .gate gate m => some (d.handleGate gate m)
  | .drain .. | .writeFailed _ | .shutdown .. => none

theorem step_of_handled {e : DaemonEvent γ} (hrunning : d.running = true)
    (h : d.handled? e = some d') : d.step e = d'.reapLost := by
  unfold step
  rw [hrunning]
  cases e <;> cases h <;> rfl

theorem linked_of_handled {e : DaemonEvent γ} (hb : d.broker.Coherent) (hl : Linked d)
    (h : d.handled? e = some d') : Linked d' := by
  cases e with
  | accept uid =>
    obtain ⟨m, hm⟩ := exists_greeting
    have haccepted : Hears ⟨0⟩ _ (d.connect uid) (d.accept uid) := hears_accept hb hl uid hm
    exact Option.some.inj h ▸ haccepted.linked
  | frame channel m => exact Option.some.inj h ▸ (linked_handleFrame hb hl channel m).1
  | hangUp channel =>
    have hclosed : Hears ⟨0⟩ [] d (d.close channel) := hears_close hb hl channel
    exact Option.some.inj h ▸ hclosed.linked
  | gate gate m =>
    have hasked : Hears ⟨0⟩ [] d (d.handleGate gate m) := hears_handleGate hb hl gate m
    exact Option.some.inj h ▸ hasked.linked
  | drain | writeFailed | shutdown => cases h

/-- What a daemon has handled in any run leaves it paired, and its step ends with the reaping. -/
theorem purged_step (settings : DaemonSettings) (events : List (DaemonEvent γ)) {e : DaemonEvent γ}
    (hrunning : ((new settings).run events).running = true)
    (h : ((new settings).run events).handled? e = some d') : d'.Paired ∧ ∃ n sends,
      n ≤ d'.broker.sessions.size ∧ Rounds n sends d' (((new settings).run events).step e) ∧
        Purged sends d' (((new settings).run events).step e) := by
  have hl := (linked_run settings events).1
  have hpaired := (linked_of_handled (coherent_run settings events) hl h).paired
  obtain ⟨n, sends, hn, hrounds⟩ := rounds_reapRounds hpaired (Nat.le_refl _)
  rw [step_of_handled hrunning h]
  exact ⟨hpaired, n, sends, hn, hrounds, hrounds.purged hpaired⟩

end Daemon

end Arbiter
