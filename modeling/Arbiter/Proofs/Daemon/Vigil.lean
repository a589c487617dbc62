import Arbiter.Proofs.Daemon.Runs

/-!
No gate waits for nobody. Between events the daemon and its broker know the same clients, none of
whom is lost, and the heads are those of the requests that are still to be answered; each of them is
waited for by its gate and was given to a client that is connected and can still answer.
-/

namespace Arbiter

variable {γ : Type}

/-- How a daemon stands that was asked the requests, between two events. -/
structure Vigil (requests : List (GateRequest γ)) (d : Daemon γ) : Prop where
  session {channel c s} : d.connections.get? channel = some c → c.session = some s →
    ∃ sess, d.broker.sessions.get? s = some sess ∧ sess.uid = c.uid ∧ sess.channel = channel
  connection {s sess} : d.broker.sessions.get? s = some sess →
    ∃ c, d.connections.get? sess.channel = some c ∧ c.session = some s ∧ c.uid = sess.uid
  lost {s sess} : d.broker.sessions.get? s = some sess → sess.lost = false
  head {id h} : d.broker.heads.get? id = some h →
    ∃ r ∈ requests, r.head = some id ∧ (∀ v, (r.gate, v) ∉ d.log.verdicts) ∧
      h.message = r.message ∧ h.kind = .ask ∧ h.waiter = some r.gate
  waiting {r} : r ∈ requests → (∀ v, (r.gate, v) ∉ d.log.verdicts) →
    ∃ id h, r.head = some id ∧ d.broker.heads.get? id = some h
  distinct {r r' id} : r ∈ requests → r' ∈ requests → r.head = some id → r'.head = some id → r = r'
  pending {id h} : d.broker.heads.get? id = some h →
    ∃ i inst channel c, i ∈ h.instances ∧ d.broker.instances.get? i = some inst ∧
      inst.head = id ∧ inst.state = .pending ∧ d.connections.get? channel = some c ∧
      c.session = some inst.session

namespace Daemon

variable {d : Daemon γ} {rs : List (GateRequest γ)}

theorem not_mem_gates {log : DaemonLog γ} {gate : γ} :
    gate ∉ log.verdicts.map Prod.fst ↔ ∀ v, (gate, v) ∉ log.verdicts := by
  simp

theorem Sound.vigil (hs : Sound rs d) (hlost : d.broker.lostSessions = []) : Vigil rs d where
  session {channel c s} hc hsession := by
    have hclient := client_of_get? hc
    rw [hsession, ← hs.linked.linked] at hclient
    obtain ⟨sess, hsess, heq⟩ := Option.map_eq_some_iff.mp hclient
    exact ⟨sess, hsess, congrArg Prod.fst heq, congrArg Prod.snd heq⟩
  connection {s sess} hsess := by
    have hmember : d.member s = some (sess.uid, sess.channel) := by
      rw [member, hsess]
      rfl
    obtain ⟨c, hc, huid, hsession⟩ := get?_of_client (hs.linked.linked.mp hmember)
    exact ⟨c, hc, hsession, huid⟩
  lost := Broker.lost_of_lostSessions hlost
  head {id h} hh := by
    obtain ⟨r, hr, ⟨hid, e, -, hneeds, hsubject⟩, hnot⟩ := hs.ledger.awaited hh
    simp only [Head.subject, Head.new, hneeds, Prod.mk.injEq] at hsubject
    obtain ⟨hmessage, -, -, hkind, hwaiter⟩ := hsubject
    exact ⟨r, hr, hid, not_mem_gates.mp hnot, hmessage, hkind, hwaiter⟩
  waiting hr hnot := (hs.ledger.answered hr).resolve_left (not_mem_gates.mpr hnot)
  distinct := hs.ledger.books.heads
  pending := hs.pending

/-- As long as the daemon was not shut down, it took every request and keeps watch over each. -/
theorem vigil_run (settings : DaemonSettings) (events : List (DaemonEvent γ))
    (hgates : (events.flatMap DaemonEvent.gates).Nodup)
    (hopen : ∀ e ∈ events, e.isShutdown = false) :
    ((new settings).requests events).map GateRequest.gate = events.flatMap DaemonEvent.gates ∧
      Vigil ((new settings).requests events) ((new settings).run events) := by
  cases course_run settings hgates with
  | running _ hs hlost hsame => exact ⟨hsame, hs.vigil hlost⟩
  | stopped hshut =>
    obtain ⟨e, he, hshut⟩ := hshut
    rw [hopen e he] at hshut
    cases hshut

/-- A client that subscribes to the events of its user, and two of them. -/
theorem vigil_run_subscriber : ∃ versel register ask notice,
    Message.versel 1 protocolVersion = .ok versel ∧
      Message.register ⟨2, ⟨1000, 0, 1⟩, none⟩ = .ok register ∧
      Message.event ⟨true, 3, 42, 1000, 7, 1, 0, [], none, []⟩ = .ok ask ∧
      Message.event ⟨false, 4, 42, 1000, 7, 1, 0, [], none, []⟩ = .ok notice ∧
      let events : List (DaemonEvent Nat) := [.accept 1000, .frame ⟨1⟩ versel,
        .frame ⟨1⟩ register, .gate 0 ask, .gate 1 notice]
      (events.flatMap DaemonEvent.gates).Nodup ∧ (∀ e ∈ events, e.isShutdown = false) ∧
        ((new .default).requests events).map GateRequest.gate = [0, 1] ∧
        Vigil ((new .default).requests events) ((new .default).run events) := by
  obtain ⟨versel, hversel⟩ : ∃ m, Message.versel 1 protocolVersion = .ok m := by
    unfold Message.versel
    exact Message.exists_compose (by decide)
  obtain ⟨register, hregister⟩ : ∃ m, Message.register ⟨2, ⟨1000, 0, 1⟩, none⟩ = .ok m := by
    unfold Message.register Message.registration
    exact Message.exists_compose (by decide)
  obtain ⟨ask, hask⟩ : ∃ m, Message.event ⟨true, 3, 42, 1000, 7, 1, 0, [], none, []⟩ = .ok m := by
    unfold Message.event
    exact Message.exists_compose (by decide)
  obtain ⟨notice, hnotice⟩ :
      ∃ m, Message.event ⟨false, 4, 42, 1000, 7, 1, 0, [], none, []⟩ = .ok m := by
    unfold Message.event
    exact Message.exists_compose (by decide)
  have hgates : [0, 1].Nodup := by decide
  have hopen : ∀ e ∈ ([.accept 1000, .frame ⟨1⟩ versel, .frame ⟨1⟩ register, .gate 0 ask,
      .gate 1 notice] : List (DaemonEvent Nat)), e.isShutdown = false := by
    simp [DaemonEvent.isShutdown]
  exact ⟨versel, register, ask, notice, hversel, hregister, hask, hnotice, hgates, hopen,
    vigil_run .default _ hgates hopen⟩

end Daemon

end Arbiter
