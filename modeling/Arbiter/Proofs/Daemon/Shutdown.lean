import Arbiter.Proofs.Daemon.Delegations
import Arbiter.Proofs.Daemon.Defaults
import Arbiter.Proofs.Daemon.Runs

/-!
The end of a daemon. A head that waits is owed to its gate: the verdict recorded with it is given
when the head is resolved, and is owed until then. Closing a connection gives some of what is owed
and nothing else, whatever becomes of the results that are sent meanwhile; so in any order all of it
is given, and when no connection is left nothing is owed.
-/

namespace Arbiter

section Table

variable {κ α : Type} [DecidableEq κ] {t t' : Table κ α} {k : κ} {a : α}

theorem Table.perm_map_entries {β : Type} {f : α → β}
    (h : ∀ k, (t'.get? k).map f = (t.get? k).map f) :
    (t'.entries.map fun e => (e.1, f e.2)).Perm (t.entries.map fun e => (e.1, f e.2)) := by
  have hnodup (t : Table κ α) : (t.entries.map fun e => (e.1, f e.2)).Nodup := by
    refine List.Nodup.of_map Prod.fst ?_
    rw [List.map_map]
    exact t.nodup
  have hmem (t : Table κ α) (k : κ) (b : β) :
      (k, b) ∈ t.entries.map (fun e => (e.1, f e.2)) ↔ (t.get? k).map f = some b := by
    simp only [List.mem_map, Prod.mk.injEq, Option.map_eq_some_iff, Table.get?_eq_some]
    constructor
    · rintro ⟨⟨k', a⟩, he, rfl, rfl⟩
      exact ⟨a, he, rfl⟩
    · rintro ⟨a, he, rfl⟩
      exact ⟨(k, a), he, rfl, rfl⟩
  refine (List.perm_ext_iff_of_nodup (hnodup t') (hnodup t)).mpr ?_
  rintro ⟨k, b⟩
  rw [hmem, hmem, h]

theorem Table.perm_cons_erase (h : t.get? k = some a) :
    t.entries.Perm ((k, a) :: (t.erase k).entries) := by
  have hnot : (k, a) ∉ (t.erase k).entries := by
    rw [← Table.get?_eq_some, Table.get?_erase, if_pos rfl]
    exact Option.some_ne_none a ∘ Eq.symm
  refine (List.perm_ext_iff_of_nodup t.nodup.of_map ?_).mpr ?_
  · exact List.nodup_cons.mpr ⟨hnot, (t.erase k).nodup.of_map⟩
  · rintro ⟨k', a'⟩
    rw [List.mem_cons, ← Table.get?_eq_some, ← Table.get?_eq_some, Table.get?_erase, Prod.mk.injEq]
    split
    · rename_i hk
      rw [hk, h]
      simp [eq_comm]
    · rename_i hk
      simp [hk]

end Table

variable {γ : Type}

def Head.due (h : Head γ) : Option (γ × Verdict) := h.waiter.map fun gate => (gate, h.outcome)

def Broker.owed (b : Broker γ) : List (γ × Verdict) := b.heads.entries.filterMap fun e => e.2.due

namespace Broker

variable {b b' : Broker γ} {id : HeadId} {h : Head γ}

theorem mem_owed {p : γ × Verdict} :
    p ∈ b.owed ↔ ∃ id h, b.heads.get? id = some h ∧ h.due = some p := by
  unfold owed
  simp only [List.mem_filterMap, Prod.exists, Table.get?_eq_some]

theorem owed_perm (h : ∀ id, (b'.heads.get? id).map Head.account =
    (b.heads.get? id).map Head.account) : b'.owed.Perm b.owed := by
  have hperm := (Table.perm_map_entries h).filterMap fun e =>
    e.2.2.1.map fun gate => (gate, e.2.2.2.2)
  rw [List.filterMap_map, List.filterMap_map] at hperm
  exact hperm

theorem owed_resolved (hh : b.heads.get? id = some h) (hheads : b'.heads = b.heads.erase id) :
    (h.due.toList ++ b'.owed).Perm b.owed := by
  have hperm := (Table.perm_cons_erase hh).filterMap fun e => e.2.due
  rw [List.filterMap_cons] at hperm
  unfold owed
  rw [hheads]
  cases hdue : h.due with
  | none =>
    rw [show (id, h).2.due = none from hdue] at hperm
    exact hperm.symm
  | some p =>
    rw [show (id, h).2.due = some p from hdue] at hperm
    exact hperm.symm

end Broker

namespace Daemon

open Exchange

variable {d d' d'' : Daemon γ} {rs : List (GateRequest γ)}

/-- From `d` to `d'` verdicts were given that were owed, and the rest of them is owed still. -/
structure Pays (d d' : Daemon γ) : Prop where
  coherent : d'.broker.Coherent
  verdicts : ∃ new, d'.log.verdicts = d.log.verdicts ++ new ∧
    (new ++ d'.broker.owed).Perm d.broker.owed

namespace Pays

theorem quiet (hb : d'.broker.Coherent) (hverdicts : d'.log.verdicts = d.log.verdicts)
    (hheads : d'.broker.heads = d.broker.heads) : Pays d d' where
  coherent := hb
  verdicts := by
    refine ⟨[], by rw [hverdicts, List.append_nil], ?_⟩
    unfold Broker.owed
    rw [hheads]
    exact List.Perm.refl _

theorem trans (h : Pays d d') (h' : Pays d' d'') : Pays d d'' where
  coherent := h'.coherent
  verdicts := by
    obtain ⟨new, hnew, howed⟩ := h.verdicts
    obtain ⟨new', hnew', howed'⟩ := h'.verdicts
    refine ⟨new ++ new', by rw [hnew', hnew, List.append_assoc], ?_⟩
    rw [List.append_assoc]
    exact (howed'.append_left new).trans howed

end Pays

theorem pays_teardown (hb : d.broker.Coherent) (s : SessionId) :
    Pays d (d.operate (.teardown s)) where
  coherent := coherent_perform (x := d.exchange) hb _
  verdicts := by
    refine ⟨_, congrArg DaemonLog.verdicts (absorb_log ..), ?_⟩
    refine perform_induction (P := fun z => ((z.completions.map fun c => (c.waiter, c.verdict)) ++
      z.broker.owed).Perm d.broker.owed) hb _ (fun {y ids} he => ?_)
      fun {id h y z new} _ hh hx hy => ?_
    · -- The session that leaves changes what its heads wait for, and not what they account for.
      have hcompletions : y.completions = [] := (he.quiet hb).completions
      rw [hcompletions]
      refine Broker.owed_perm fun id => ?_
      generalize (d.exchange.perform d.transport (.teardown s)).1 = r at he
      cases he with
      | refused => rfl
      | tornDown hs => exact (closing_spec hb hs).1.account hb id
      | registered hop =>
        obtain ⟨_, hop | hop⟩ := hop <;> cases hop
      | offered _ hop =>
        rcases hop with hop | ⟨_, hop⟩ <;> cases hop
    · have hpaid : (z.completions.map fun c => (c.waiter, c.verdict)) =
          (y.completions.map fun c => (c.waiter, c.verdict)) ++ h.due.toList := by
        rw [hx.completions, List.map_append, List.map_map]
        congr 1
        unfold Head.due
        cases h.waiter <;> rfl
      rw [hpaid, List.append_assoc]
      exact ((Broker.owed_resolved hh hx.heads).append_left _).trans hy

theorem pays_close (hb : d.broker.Coherent) (channel : ChannelId) : Pays d (d.close channel) := by
  have hdisconnect : Pays d (d.disconnect channel) := .quiet hb rfl rfl
  cases hc : d.connections.get? channel with
  | none =>
    rw [close_of_absent hc]
    exact .quiet hb rfl rfl
  | some c =>
    cases hsession : c.session with
    | none =>
      rw [close_of_newcomer hc hsession]
      exact hdisconnect
    | some s =>
      rw [close_of_member hc hsession]
      exact hdisconnect.trans (pays_teardown (d := d.disconnect channel) hb s)

theorem pays_foldl_close (hb : d.broker.Coherent) (order : List ChannelId) :
    Pays d (order.foldl close d) := by
  induction order generalizing d with
  | nil => exact .quiet hb rfl rfl
  | cons channel order ih =>
    have hclosed := pays_close hb channel
    exact hclosed.trans (ih hclosed.coherent)

def requeue (d : Daemon γ) (connections : Connections) : Daemon γ := { d with connections }

theorem requeue_self (d : Daemon γ) : d.requeue d.connections = d := rfl

theorem Sound.requeue (hs : Sound rs d) {connections : Connections}
    (hclients : ∀ channel, (connections.get? channel).map Connection.client = d.client channel) :
    Sound rs (d.requeue connections) where
  coherent := hs.coherent
  linked := hs.linked.congr (fun _ => rfl) hclients rfl
  ledger := hs.ledger
  running := hs.running

theorem Deserted.owed {b : Broker γ} (h : Deserted b) : b.owed = [] := by
  unfold Broker.owed
  rw [h.heads]
  rfl

/-- The clients of `d` with any queues, and an order in which all of them are closed. -/
structure Closes (d : Daemon γ) (connections : Connections) (order : List ChannelId) : Prop where
  clients (channel : ChannelId) :
    (connections.get? channel).map Connection.client = d.client channel
  all {channel : ChannelId} : connections.contains channel = true → channel ∈ order

theorem Closes.all_of_client {connections : Connections} {order : List ChannelId}
    (h : d.Closes connections order) {channel : ChannelId} (hclient : d.client channel ≠ none) :
    channel ∈ order := by
  refine h.all ?_
  rw [← h.clients, ne_eq, Option.map_eq_none_iff] at hclient
  exact Option.isSome_iff_ne_none.mpr hclient

theorem Sound.pays_all (hs : Sound rs d) {order : List ChannelId}
    (hall : ∀ channel, d.client channel ≠ none → channel ∈ order) (waiting : List γ) :
    ∃ new, (d.shutdown order waiting).log.verdicts = d.log.verdicts ++ new ∧
      new.Perm (d.broker.owed ++ waiting.map fun gate => (gate, .noDecision)) := by
  obtain ⟨new, hnew, howed⟩ := (pays_foldl_close hs.coherent order).verdicts
  rw [(hs.foldl_close_deserted hall).owed, List.append_nil] at howed
  refine ⟨new ++ waiting.map fun gate => (gate, .noDecision), ?_, howed.append_right _⟩
  rw [shutdown_log, hnew, List.append_assoc]

theorem Sound.owes (hs : Sound rs d) {r : GateRequest γ} (hr : r ∈ rs)
    (hunanswered : r.gate ∉ d.log.verdicts.map Prod.fst) :
    ∃ id h, r.head = some id ∧ d.broker.heads.get? id = some h ∧
      (r.gate, h.outcome) ∈ d.broker.owed := by
  obtain ⟨id, h, hid, hh⟩ := (hs.ledger.answered hr).resolve_left hunanswered
  refine ⟨id, h, hid, hh, Broker.mem_owed.mpr ⟨id, h, hh, ?_⟩⟩
  obtain ⟨r', hr', ⟨hid', e, -, -, hsubject⟩, -⟩ := hs.ledger.awaited hh
  obtain rfl := hs.ledger.books.heads hr hr' hid hid'
  have hwaiter : h.waiter = some r.gate := congrArg (fun p => p.2.2.2.2) hsubject
  unfold Head.due
  rw [hwaiter]
  rfl

/-- How a daemon ends. Of what was given while it served it is known what was last delegated for
each head; the requests that were still unanswered are given that, or no decision. -/
structure Settlement (requests : List (GateRequest γ)) (given : List (HeadId × Verdict))
    (waiting : List γ) (d d' : Daemon γ) : Prop where
  deserted : Deserted d'.broker
  verdicts : ∃ new, d'.log.verdicts = d.log.verdicts ++ new ∧
    new.Perm (d.broker.owed ++ waiting.map fun gate => (gate, .noDecision))
  unanswered {r} : r ∈ requests → r.gate ∉ d.log.verdicts.map Prod.fst →
    ∃ id h, r.head = some id ∧ d.broker.heads.get? id = some h ∧
      h.outcome = (lastFor given id).getD .noDecision ∧
      ∀ v, (r.gate, v) ∈ d'.log.verdicts ↔ v = h.outcome
  unheard {gate} : gate ∈ waiting → ∀ v, (gate, v) ∈ d'.log.verdicts ↔ v = .noDecision

theorem Sound.settlement (hs : Sound rs d) {given : List (HeadId × Verdict)}
    (hgiven : ∀ id h, d.broker.heads.get? id = some h →
      h.outcome = (lastFor given id).getD .noDecision)
    {waiting : List γ} (hgates : (rs.map GateRequest.gate ++ waiting).Nodup)
    {connections : Connections} {order : List ChannelId} (hcloses : d.Closes connections order) :
    Settlement rs given waiting d ((d.requeue connections).step (.shutdown order waiting)) := by
  have hsound := hs.requeue hcloses.clients
  have hall (channel : ChannelId) (hclient : (d.requeue connections).client channel ≠
      none) : channel ∈ order := by
    refine hcloses.all_of_client ?_
    rw [← hcloses.clients]
    exact hclient
  have hstep : (d.requeue connections).step (.shutdown order waiting) =
      (d.requeue connections).shutdown order waiting := by
    unfold Daemon.step
    rw [hsound.running]
    rfl
  rw [hstep]
  obtain ⟨new, hnew, howed⟩ := hsound.pays_all hall waiting
  -- No gate is given two verdicts, so the one it is known to be given is the only one.
  have honce := (hsound.shutdown order hgates).once
  have honly {gate : γ} {v : Verdict} (hmem : (gate, v) ∈ new) (v' : Verdict) :
      (gate, v') ∈ ((d.requeue connections).shutdown order waiting).log.verdicts ↔
        v' = v := by
    have hv : (gate, v) ∈
        ((d.requeue connections).shutdown order waiting).log.verdicts := by
      rw [hnew]
      exact List.mem_append_right _ hmem
    constructor
    · intro hv'
      exact congrArg Prod.snd (List.inj_on_of_nodup_map honce hv' hv rfl)
    · rintro rfl
      exact hv
  constructor
  · rw [shutdown_broker]
    exact hsound.foldl_close_deserted hall
  · exact ⟨new, hnew, howed⟩
  · intro r hr hunanswered
    obtain ⟨id, h, hid, hh, hmem⟩ := hs.owes hr hunanswered
    refine ⟨id, h, hid, hh, hgiven id h hh, honly ?_⟩
    exact howed.mem_iff.mpr (List.mem_append_left _ hmem)
  · intro gate hgate
    refine honly (howed.mem_iff.mpr (List.mem_append_right _ ?_))
    exact List.mem_map.mpr ⟨gate, hgate, rfl⟩

/-- However many messages are queued for them, and in whatever order the connections are closed, a
daemon that is shut down gives the same verdicts: to each request that is still unanswered the
verdict that was last delegated for it, or no decision. -/
theorem settlement_run (settings : DaemonSettings) {events : List (DaemonEvent γ)}
    (hopen : ∀ e ∈ events, e.isShutdown = false) {waiting : List γ}
    (hgates : (events.flatMap DaemonEvent.gates ++ waiting).Nodup) :
    let d := (new settings).run events
    (∀ connections order, d.Closes connections order →
      Settlement ((new settings).requests events) ((new settings).delegations events) waiting d
        ((d.requeue connections).step (.shutdown order waiting))) ∧
    ∀ connections connections' order order', d.Closes connections order →
      d.Closes connections' order' →
        ((d.requeue connections).step (.shutdown order waiting)).log.verdicts.Perm
          ((d.requeue connections').step (.shutdown order' waiting)).log.verdicts := by
  intro d
  obtain ⟨hs, hsame⟩ := sound_run settings (List.nodup_append.mp hgates).1 hopen
  have hsettled (connections : Connections) (order : List ChannelId)
      (hcloses : d.Closes connections order) :
      Settlement ((new settings).requests events) ((new settings).delegations events) waiting d
        ((d.requeue connections).step (.shutdown order waiting)) :=
    hs.settlement (fun id h hh => recorded_run settings events hh) (hsame ▸ hgates) hcloses
  refine ⟨hsettled, fun connections connections' order order' hcloses hcloses' => ?_⟩
  obtain ⟨new, hnew, howed⟩ := (hsettled connections order hcloses).verdicts
  obtain ⟨new', hnew', howed'⟩ := (hsettled connections' order' hcloses').verdicts
  rw [hnew, hnew']
  exact (howed.trans howed'.symm).append_left _

/-- Two root clients were asked a question, and the first of them leaves an action that it allows to
the second. -/
def delegatedQuestion : List (DaemonEvent Nat) := rootSubscription ++ [.accept 0,
  .frame ⟨2⟩ ⟨#[0, 0, 0, 24, 0, 0, 16, 1, 0, 0, 0, 0, 0, 0, 0, 1, 0, 0, 0, 3, 156, 46, 183, 250]⟩,
  .frame ⟨2⟩ ⟨#[0, 0, 0, 36, 0, 0, 32, 0, 0, 0, 0, 0, 0, 0, 0, 2, 0, 0, 0, 0, 0, 0, 0, 0, 0, 0, 0,
    0, 0, 0, 0, 0, 73, 59, 206, 250]⟩,
  .gate 0 pendingQuestion,
  .frame ⟨1⟩ ⟨#[0, 0, 0, 28, 0, 0, 32, 4, 0, 0, 0, 0, 0, 0, 0, 7, 0, 0, 0, 0, 0, 0, 0, 1, 90, 159,
    233, 171]⟩]

def delegatedOnce : Daemon Nat := (new .default).run delegatedQuestion

set_option maxRecDepth 100000 in
/-- Closed in either order, the daemon repeats the verdict that was left to the second client. -/
theorem settlement_run_delegated :
    let requests := (new .default).requests delegatedQuestion
    let given := (new .default).delegations delegatedQuestion
    let forward := delegatedOnce.step (.shutdown [⟨1⟩, ⟨2⟩] [1])
    let backward := delegatedOnce.step (.shutdown [⟨2⟩, ⟨1⟩] [1])
    Settlement requests given [1] delegatedOnce forward ∧
      Settlement requests given [1] delegatedOnce backward ∧
      forward.log.verdicts = [(0, .allow), (1, .noDecision)] ∧
      backward.log.verdicts = [(0, .allow), (1, .noDecision)] := by
  intro requests given forward backward
  have hopen : ∀ e ∈ delegatedQuestion, e.isShutdown = false := by
    simp [delegatedQuestion, rootSubscription, DaemonEvent.isShutdown]
  have hgates : (delegatedQuestion.flatMap DaemonEvent.gates ++ [1]).Nodup := by
    simp [delegatedQuestion, rootSubscription, DaemonEvent.gates]
  have hrun : delegatedOnce.connections.keys = [⟨1⟩, ⟨2⟩] ∧
      forward.log.verdicts = [(0, .allow), (1, .noDecision)] ∧
      backward.log.verdicts = [(0, .allow), (1, .noDecision)] := by decide +kernel
  have hsettled (order : List ChannelId) (horder : [⟨1⟩, ⟨2⟩] ⊆ order) :
      Settlement requests given [1] delegatedOnce (delegatedOnce.step (.shutdown order [1])) := by
    have hcloses : delegatedOnce.Closes delegatedOnce.connections order := by
      refine ⟨fun _ => rfl, fun hc => horder ?_⟩
      rw [← hrun.1]
      by_contra hnot
      rw [Table.contains, Table.get?_eq_none.mpr hnot] at hc
      cases hc
    have hsettled :=
      (settlement_run .default hopen hgates).1 delegatedOnce.connections order hcloses
    rw [← delegatedOnce, requeue_self] at hsettled
    exact hsettled
  exact ⟨hsettled _ (List.Subset.refl _), hsettled _ (by decide), hrun.2⟩

end Daemon

end Arbiter
