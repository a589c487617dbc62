import Arbiter.Proofs.Daemon.Upkeep

/-!
Runs of the daemon. Until it is shut down every event is handled to its end and every request that
was made is in the books; when it is shut down all sessions end, so nothing is left to wait for, and
the requests that were never looked at are dismissed.
-/

namespace Arbiter

theorem Table.eq_empty {κ α : Type} [DecidableEq κ] {t : Table κ α} (h : ∀ k, t.get? k = none) :
    t = .empty := by
  obtain ⟨entries, nodup⟩ := t
  cases entries with
  | nil => rfl
  | cons e entries =>
    have hfirst : (⟨e :: entries, nodup⟩ : Table κ α).get? e.1 = some e.2 :=
      Table.get?_eq_some.mpr (List.mem_cons_self ..)
    rw [h] at hfirst
    cases hfirst

variable {γ : Type}

theorem Books.dismiss {rs : List (GateRequest γ)} {log : DaemonLog γ} (hb : Books rs [] log)
    {waiting : List γ} (hgates : (rs.map GateRequest.gate ++ waiting).Nodup) :
    Books rs waiting { log with
      verdicts := log.verdicts ++ waiting.map fun gate => (gate, .noDecision) } where
  gates := hgates
  heads := hb.heads
  once := by
    have hwaiting :
        (waiting.map fun gate => (gate, Verdict.noDecision)).map Prod.fst = waiting := by
      rw [List.map_map]
      exact List.map_id _
    rw [List.map_append, hwaiting]
    refine List.nodup_append.mpr ⟨hb.once, (List.nodup_append.mp hgates).2.1, ?_⟩
    intro gate hgate gate' hgate' heq
    obtain ⟨⟨_, v⟩, hv, rfl⟩ := List.mem_map.mp hgate
    rcases hb.just hv with ⟨r, hr, hgate, -⟩ | ⟨hunheard, -⟩
    · exact (List.nodup_append.mp hgates).2.2 _ (List.mem_map_of_mem hr) _ hgate' (hgate.trans heq)
    · exact List.not_mem_nil hunheard
  just {gate v} hv := by
    rcases List.mem_append.mp hv with hv | hv
    · exact (hb.just hv).imp_right fun hunheard => absurd hunheard.1 List.not_mem_nil
    · obtain ⟨gate', hgate', heq⟩ := List.mem_map.mp hv
      cases heq
      exact .inr ⟨hgate', rfl⟩
  queued hs := (hb.queued hs).imp_right fun hs =>
    hs.mono (fun _ hr => hr) fun _ hv => List.mem_append_left _ hv

namespace Daemon

variable {d : Daemon γ} {rs : List (GateRequest γ)} {e : DaemonEvent γ}

theorem Sound.step (hs : Sound rs d) (hlost : d.broker.lostSessions = [])
    (hgates : ∀ gate ∈ e.gates, gate ∉ rs.map GateRequest.gate) (he : e.isShutdown = false) :
    Sound (rs ++ (d.request? e).toList) (d.step e) ∧ (d.step e).broker.lostSessions = [] := by
  have hnone : rs ++ (none : Option (GateRequest γ)).toList = rs := List.append_nil rs
  unfold Daemon.step request?
  rw [hs.running]
  cases e with
  | shutdown => cases he
  | gate gate m => exact (hs.handleGate (hgates gate (List.mem_singleton_self _)) m).reapLost
  | accept uid =>
    rw [hnone]
    exact (hs.accept uid).reapLost
  | frame channel m =>
    rw [hnone]
    exact (hs.handleFrame channel m).reapLost
  | hangUp channel =>
    rw [hnone]
    exact (hs.close channel).reapLost
  | drain channel count =>
    rw [hnone]
    exact ⟨hs.connections channel fun _ => rfl, hlost⟩
  | writeFailed channel =>
    rw [hnone]
    exact ⟨hs.connections channel fun _ => rfl, hlost⟩

theorem Sound.foldl_close (hs : Sound rs d) (order : List ChannelId) :
    Sound rs (order.foldl Daemon.close d) ∧ ∀ channel, (order.foldl Daemon.close d).client channel =
      if channel ∈ order then none else d.client channel := by
  induction order generalizing d with
  | nil => exact ⟨hs, fun channel => (if_neg List.not_mem_nil).symm⟩
  | cons channel₀ order ih =>
    obtain ⟨hrest, hclient⟩ := ih (hs.close channel₀)
    refine ⟨hrest, fun channel => ?_⟩
    rw [List.foldl_cons, hclient, close_client]
    by_cases hsame : channel = channel₀ <;> by_cases hmem : channel ∈ order <;> simp [hsame, hmem]

structure Deserted (b : Broker γ) : Prop where
  sessions : b.sessions = .empty
  heads : b.heads = .empty
  instances : b.instances = .empty

theorem Sound.deserted (hs : Sound rs d) (hnone : ∀ channel, d.client channel = none) :
    Deserted d.broker := by
  have hheads (id : HeadId) : d.broker.heads.get? id = none := by
    cases hh : d.broker.heads.get? id with
    | none => rfl
    | some h =>
      obtain ⟨i, inst, channel, c, -, -, -, -, hc, -⟩ := hs.pending hh
      have hclient := client_of_get? hc
      rw [hnone] at hclient
      cases hclient
  constructor
  · refine Table.eq_empty fun s => ?_
    cases hsess : d.broker.sessions.get? s with
    | none => rfl
    | some sess =>
      have hmember : d.member s = some (sess.uid, sess.channel) := by
        unfold member
        rw [hsess]
        rfl
      have hclient := hs.linked.linked.mp hmember
      rw [hnone] at hclient
      cases hclient
  · exact Table.eq_empty hheads
  · refine Table.eq_empty fun i => ?_
    cases hi : d.broker.instances.get? i with
    | none => rfl
    | some inst =>
      obtain ⟨h, hh, -⟩ := hs.coherent.listed hi
      rw [hheads] at hh
      cases hh

theorem Sound.foldl_close_deserted (hs : Sound rs d) {order : List ChannelId}
    (hall : ∀ channel, d.client channel ≠ none → channel ∈ order) :
    Deserted (order.foldl Daemon.close d).broker := by
  obtain ⟨hclosed, hclient⟩ := hs.foldl_close order
  refine hclosed.deserted fun channel => ?_
  rw [hclient]
  split
  · rfl
  · rename_i hnot
    by_contra hsome
    exact hnot (hall channel hsome)

theorem foldl_giveVerdict (d : Daemon γ) (waiting : List γ) :
    (waiting.foldl (fun d gate => d.giveVerdict gate .noDecision) d).log = { d.log with
      verdicts := d.log.verdicts ++ waiting.map fun gate => (gate, .noDecision) } := by
  induction waiting generalizing d with
  | nil =>
    rw [List.map_nil, List.append_nil]
    rfl
  | cons gate waiting ih =>
    rw [List.foldl_cons, ih, giveVerdict, List.append_assoc]
    rfl

theorem shutdown_log (d : Daemon γ) (order : List ChannelId) (waiting : List γ) :
    (d.shutdown order waiting).log = { (order.foldl close d).log with
      verdicts := (order.foldl close d).log.verdicts ++
        waiting.map fun gate => (gate, .noDecision) } :=
  foldl_giveVerdict _ waiting

theorem foldl_giveVerdict_broker (d : Daemon γ) (waiting : List γ) :
    (waiting.foldl (fun d gate => d.giveVerdict gate .noDecision) d).broker = d.broker := by
  induction waiting generalizing d with
  | nil => rfl
  | cons gate waiting ih => exact ih _

theorem shutdown_broker (d : Daemon γ) (order : List ChannelId) (waiting : List γ) :
    (d.shutdown order waiting).broker = (order.foldl close d).broker :=
  foldl_giveVerdict_broker _ waiting

theorem Sound.shutdown (hs : Sound rs d) (order : List ChannelId) {waiting : List γ}
    (hgates : (rs.map GateRequest.gate ++ waiting).Nodup) :
    Books rs waiting (d.shutdown order waiting).log := by
  rw [shutdown_log]
  exact (hs.foldl_close order).1.ledger.books.dismiss hgates

theorem Sound.shutdown_complete (hs : Sound rs d) {order : List ChannelId}
    (horder : ∀ channel, d.client channel ≠ none → channel ∈ order) (waiting : List γ) :
    ∀ gate ∈ rs.map GateRequest.gate ++ waiting,
      gate ∈ (d.shutdown order waiting).log.verdicts.map Prod.fst := by
  -- Once all connections are closed no head is left, so every request has been answered.
  have hclosed := (hs.foldl_close order).1
  have hdeserted := hs.foldl_close_deserted horder
  intro gate hgate
  rw [shutdown_log, List.map_append, List.mem_append]
  rcases List.mem_append.mp hgate with hgate | hgate
  · obtain ⟨r, hr, rfl⟩ := List.mem_map.mp hgate
    rcases hclosed.ledger.answered hr with hanswered | ⟨id, h, -, hh⟩
    · exact .inl hanswered
    · rw [hdeserted.heads] at hh
      cases hh
  · exact .inr (List.mem_map.mpr ⟨_, List.mem_map_of_mem hgate, rfl⟩)

inductive Course (start : Daemon γ) (events : List (DaemonEvent γ)) (d : Daemon γ) : Prop where
  | running (hopen : ∀ e ∈ events, e.isShutdown = false) (hs : Sound (start.requests events) d)
      (hlost : d.broker.lostSessions = [])
      (hgates : (start.requests events).map GateRequest.gate = events.flatMap DaemonEvent.gates)
      (hunheard : start.unheard events = [])
  | stopped (hshut : ∃ e ∈ events, e.isShutdown = true) (hstop : d.running = false)
      (hbooks : Books (start.requests events) (start.unheard events) d.log)

theorem course_run (settings : DaemonSettings) {events : List (DaemonEvent γ)}
    (hgates : (events.flatMap DaemonEvent.gates).Nodup) :
    Course (new settings) events ((new settings).run events) := by
  refine run_induction (I := fun events d => (events.flatMap DaemonEvent.gates).Nodup →
    Course (new settings) events d) (fun _ => ?_) (fun {events} e ih hgates => ?_) events hgates
  · exact .running (by simp) (sound_new settings) rfl rfl rfl
  rw [List.flatMap_append, List.flatMap_singleton] at hgates
  obtain ⟨hevents, he, hdisjoint⟩ := List.nodup_append.mp hgates
  have hrequests := requests_snoc (new settings) events e
  have hunheard := unheard_snoc (new settings) events e
  cases ih hevents with
  | running hopen hs hlost hsame hnone =>
    by_cases hshut : e.isShutdown = true
    · cases e with
      | shutdown order waiting =>
        rw [request?_of_shutdown rfl, Option.toList_none, List.append_nil] at hrequests
        rw [hnone, List.nil_append, leftWaiting, if_pos hs.running] at hunheard
        rw [Daemon.step, hs.running]
        refine .stopped ⟨.shutdown order waiting, by simp, rfl⟩ rfl ?_
        rw [hrequests, hunheard]
        exact hs.shutdown order (hsame ▸ hgates)
      | _ => cases hshut
    · have hshut : e.isShutdown = false := Bool.eq_false_iff.mpr hshut
      have hfresh : ∀ gate ∈ e.gates, gate ∉
          ((new settings).requests events).map GateRequest.gate := by
        intro gate hgate hmem
        rw [hsame] at hmem
        exact hdisjoint gate hmem gate hgate rfl
      obtain ⟨hsound, hreaped⟩ := hs.step hlost hfresh hshut
      rw [leftWaiting_of_open hshut, List.append_nil, hnone] at hunheard
      refine .running (fun e' he' => ?_) (hrequests ▸ hsound) hreaped ?_ hunheard
      · rcases List.mem_append.mp he' with he' | he'
        · exact hopen e' he'
        · rw [List.mem_singleton.mp he']
          exact hshut
      · rw [hrequests, List.map_append, hsame, request?_gates hs.running hshut,
          List.flatMap_append, List.flatMap_singleton]
  | stopped hshut hstop hbooks =>
    rw [request?_of_stopped hstop, Option.toList_none, List.append_nil] at hrequests
    rw [leftWaiting_of_stopped hstop, List.append_nil] at hunheard
    rw [step_of_stopped hstop]
    obtain ⟨e', he', hshut⟩ := hshut
    refine .stopped ⟨e', List.mem_append_left _ he', hshut⟩ hstop ?_
    rw [hrequests, hunheard]
    exact hbooks

theorem sound_run (settings : DaemonSettings) {events : List (DaemonEvent γ)}
    (hgates : (events.flatMap DaemonEvent.gates).Nodup)
    (hopen : ∀ e ∈ events, e.isShutdown = false) :
    Sound ((new settings).requests events) ((new settings).run events) ∧
      ((new settings).requests events).map GateRequest.gate =
        events.flatMap DaemonEvent.gates := by
  cases course_run settings hgates with
  | running _ hs _ hsame => exact ⟨hs, hsame⟩
  | stopped hshut =>
    obtain ⟨e, he, hshut⟩ := hshut
    rw [hopen e he] at hshut
    cases hshut

theorem Course.books {start : Daemon γ} {events : List (DaemonEvent γ)}
    (hc : Course start events d) : Books (start.requests events) (start.unheard events) d.log := by
  cases hc with
  | running hopen hs hlost hgates hunheard =>
    rw [hunheard]
    exact hs.ledger.books
  | stopped hshut hstop hbooks => exact hbooks

end Daemon

end Arbiter
