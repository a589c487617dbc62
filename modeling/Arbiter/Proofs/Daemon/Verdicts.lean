import Arbiter.Proofs.Daemon.Runs

/-!
One verdict for each gated event. No request is given two, a daemon that was shut down leaves none
without one, and what a gate was told is what the clients were told of the same event.
-/

namespace Arbiter

variable {γ : Type}

/-- What a log may tell of the requests that were handled and of the gates that were left. -/
structure Verdicts (requests : List (GateRequest γ)) (unheard : List γ) (log : DaemonLog γ) :
    Prop where
  once : (log.verdicts.map Prod.fst).Nodup
  asked {gate v} : (gate, v) ∈ log.verdicts → gate ∈ requests.map GateRequest.gate ++ unheard
  malformed {r v} : r ∈ requests → (∀ e, r.message.decode ≠ .ok (.event e)) →
    (r.gate, v) ∈ log.verdicts → v = .noDecision
  notice {r e v} : r ∈ requests → r.message.decode = .ok (.event e) → e.needsVerdict = false →
    (r.gate, v) ∈ log.verdicts → v = .allow
  unheard {gate v} : gate ∈ unheard → (gate, v) ∈ log.verdicts → v = .noDecision
  /-- A result that was queued for the event of a request repeats the verdict of the request. -/
  result {r id send s} : r ∈ requests → r.head = some id → send ∈ log.queued →
    send.purpose = .outcome s id → ∃ e you uid v, r.message.decode = .ok (.event e) ∧
      send.message.decode = .ok (.outcome e.token you uid v) ∧ (r.gate, v) ∈ log.verdicts
  results {send token you uid v} : send ∈ log.queued →
    send.message.decode = .ok (.outcome token you uid v) →
    ∃ r ∈ requests, ∃ s id, r.head = some id ∧ send.purpose = .outcome s id

namespace Books

variable {rs : List (GateRequest γ)} {unheard : List γ} {log : DaemonLog γ}

theorem allows (hb : Books rs unheard log) {r : GateRequest γ} {v : Verdict} (hr : r ∈ rs)
    (hv : (r.gate, v) ∈ log.verdicts) : r.Allows v := by
  rcases hb.just hv with ⟨r', hr', hgate, hallows⟩ | ⟨hunheard, -⟩
  · rwa [hb.of_gate hr' hr hgate] at hallows
  · exact absurd hunheard (hb.heard hr)

theorem verdicts (hb : Books rs unheard log) : Verdicts rs unheard log where
  once := hb.once
  asked {gate v} hv := by
    rw [List.mem_append]
    rcases hb.just hv with ⟨r, hr, rfl, -⟩ | ⟨hunheard, -⟩
    · exact .inl (List.mem_map_of_mem hr)
    · exact .inr hunheard
  malformed hr hmalformed hv := (hb.allows hr hv).malformed hmalformed
  notice hr he hnotice hv := (hb.allows hr hv).notice he hnotice
  unheard {gate v} hunheard hv := by
    rcases hb.just hv with ⟨r, hr, rfl, -⟩ | ⟨-, hnone⟩
    · exact absurd hunheard (hb.heard hr)
    · exact hnone
  result {r id send s} hr hid hs hpurpose := by
    rcases hb.queued hs with hplain | ⟨r', hr', s', id', e, you, uid, v, hid', hpurpose', hrest⟩
    · exact absurd hpurpose (hplain.1 s id)
    · rw [hpurpose, Purpose.outcome.injEq] at hpurpose'
      rw [hb.heads hr hr' hid (hpurpose'.2 ▸ hid')]
      exact ⟨e, you, uid, v, hrest⟩
  results {send token you uid v} hs hdecode := by
    rcases hb.queued hs with hplain | ⟨r, hr, s, id, -, -, -, -, hid, hpurpose, -⟩
    · exact absurd hdecode (hplain.2 token you uid v)
    · exact ⟨r, hr, s, id, hid, hpurpose⟩

end Books

namespace Daemon

/-- Requests are told apart by their gates. After any events no request has two verdicts and all
verdicts are the right ones; after a shutdown, which closes all connections, every request that was
ever made has its verdict. -/
theorem verdicts_run (settings : DaemonSettings) (events : List (DaemonEvent γ))
    (hgates : (events.flatMap DaemonEvent.gates).Nodup) :
    Verdicts ((new settings).requests events) ((new settings).unheard events)
        ((new settings).run events).log ∧
      ∀ earlier order waiting, events = earlier ++ [.shutdown order waiting] →
        (∀ e ∈ earlier, e.isShutdown = false) →
        (∀ channel, ((new settings).run earlier).connections.contains channel = true →
          channel ∈ order) →
        (((new settings).run events).log.verdicts.map Prod.fst).Perm
          (events.flatMap DaemonEvent.gates) := by
  have hbooks := (course_run settings hgates).books
  refine ⟨hbooks.verdicts, ?_⟩
  rintro earlier order waiting rfl hopen horder
  rw [List.flatMap_append, List.flatMap_singleton] at hgates ⊢
  cases course_run settings (List.nodup_append.mp hgates).1 with
  | stopped hshut =>
    obtain ⟨e, he, hshut⟩ := hshut
    rw [hopen e he] at hshut
    cases hshut
  | running _ hs _ hsame hnone =>
    have hrequests := requests_snoc (new settings) earlier (.shutdown order waiting)
    rw [request?_of_shutdown rfl, Option.toList_none, List.append_nil] at hrequests
    have hunheard := unheard_snoc (new settings) earlier (.shutdown order waiting)
    rw [hnone, List.nil_append, leftWaiting, if_pos hs.running] at hunheard
    have hrun : (new settings).run (earlier ++ [.shutdown order waiting]) =
        ((new settings).run earlier).shutdown order waiting := by
      rw [run_snoc, step, hs.running]
      rfl
    apply (List.perm_ext_iff_of_nodup hbooks.once hgates).mpr
    intro gate
    constructor
    · intro hmem
      obtain ⟨⟨_, v⟩, hv, rfl⟩ := List.mem_map.mp hmem
      have hasked := hbooks.verdicts.asked hv
      rwa [hrequests, hunheard, hsame] at hasked
    · intro hmem
      rw [hrun]
      apply hs.shutdown_complete
      · intro channel hclient
        refine horder channel ?_
        rw [Table.contains, Option.isSome_iff_ne_none]
        exact fun hgone => hclient (by rw [client, hgone]; rfl)
      · rwa [hsame]

/-- A question that nobody subscribed to, a message that says nothing, and a request that is still
waiting when all connections are closed. -/
theorem verdicts_run_three_gates : ∃ ask,
    Message.event ⟨true, 3, 42, 1000, 7, 1, 0, [], none, []⟩ = .ok ask ∧
      let earlier : List (DaemonEvent Nat) := [.accept 1000, .gate 0 ask, .gate 1 ⟨#[]⟩]
      let order := ((new .default).run earlier).connections.keys
      let events := earlier ++ [.shutdown order [2]]
      (events.flatMap DaemonEvent.gates).Nodup ∧ (∀ e ∈ earlier, e.isShutdown = false) ∧
        Verdicts ((new .default).requests events) ((new .default).unheard events)
          ((new .default).run events).log ∧
        (((new .default).run events).log.verdicts.map Prod.fst).Perm [0, 1, 2] := by
  obtain ⟨ask, hask⟩ : ∃ m, Message.event ⟨true, 3, 42, 1000, 7, 1, 0, [], none, []⟩ = .ok m := by
    unfold Message.event
    exact Message.exists_compose (by decide)
  let earlier : List (DaemonEvent Nat) := [.accept 1000, .gate 0 ask, .gate 1 ⟨#[]⟩]
  let order := ((new .default).run earlier).connections.keys
  let events := earlier ++ [.shutdown order [2]]
  have hgates : (events.flatMap DaemonEvent.gates).Nodup := by
    show [0, 1, 2].Nodup
    decide
  have hopen : ∀ e ∈ earlier, e.isShutdown = false := by simp [earlier, DaemonEvent.isShutdown]
  obtain ⟨hverdicts, hcomplete⟩ := verdicts_run .default events hgates
  refine ⟨ask, hask, hgates, hopen, hverdicts, hcomplete _ _ _ rfl hopen ?_⟩
  intro channel hchannel
  by_contra hnot
  rw [Table.contains, Table.get?_eq_none.mpr hnot] at hchannel
  cases hchannel

end Daemon

end Arbiter
