import Arbiter.Proofs.Message.RoundTrip
import Arbiter.Proofs.Daemon.Clients
import Arbiter.Proofs.Daemon.Requests

/-!
The daemon's books. A request is either answered in the log or its event is one of the broker's
heads, which then waits for sessions that can still answer; a verdict is one that the request
allows, and the results that were queued repeat it. The books are kept while heads are resolved one
after another, so those that are ready may have nobody left to wait for.
-/

namespace Arbiter

variable {γ : Type}

/-- A message that is no event is not decided and a notice is allowed; a question allows any
verdict. -/
structure GateRequest.Allows (r : GateRequest γ) (v : Verdict) : Prop where
  malformed : (∀ e, r.message.decode ≠ .ok (.event e)) → v = .noDecision
  notice {e} : r.message.decode = .ok (.event e) → e.needsVerdict = false → v = .allow

def GateRequest.Awaits (r : GateRequest γ) (id : HeadId) (h : Head γ) : Prop :=
  r.head = some id ∧ ∃ e, r.message.decode = .ok (.event e) ∧ e.needsVerdict = true ∧
    h.subject = (Head.new r.message e (some r.gate)).subject

theorem GateRequest.Awaits.allows {r : GateRequest γ} {id : HeadId} {h : Head γ}
    (ha : r.Awaits id h) (v : Verdict) : r.Allows v := by
  obtain ⟨-, e, he, hneeds, -⟩ := ha
  constructor
  · intro hmalformed
    exact absurd he (hmalformed e)
  · intro e' he' hnotice
    rw [he] at he'
    cases he'
    rw [hneeds] at hnotice
    cases hnotice

def Send.Plain (send : Send) : Prop :=
  (∀ s id, send.purpose ≠ .outcome s id) ∧
    ∀ token you uid v, send.message.decode ≠ .ok (.outcome token you uid v)

def Send.Repeats (rs : List (GateRequest γ)) (log : DaemonLog γ) (send : Send) : Prop :=
  ∃ r ∈ rs, ∃ s id e you uid v, r.head = some id ∧ send.purpose = .outcome s id ∧
    r.message.decode = .ok (.event e) ∧
    send.message.decode = .ok (.outcome e.token you uid v) ∧ (r.gate, v) ∈ log.verdicts

theorem Send.Repeats.mono {rs rs' : List (GateRequest γ)} {log log' : DaemonLog γ} {send : Send}
    (hs : send.Repeats rs log) (hrs : ∀ r ∈ rs, r ∈ rs')
    (hverdicts : ∀ p ∈ log.verdicts, p ∈ log'.verdicts) : send.Repeats rs' log' := by
  obtain ⟨r, hr, s, id, e, you, uid, v, hhead, hpurpose, he, hsend, hv⟩ := hs
  exact ⟨r, hrs r hr, s, id, e, you, uid, v, hhead, hpurpose, he, hsend, hverdicts _ hv⟩

theorem mem_gates_snoc {verdicts : List (γ × Verdict)} {gate gate' : γ} {v : Verdict} :
    gate ∈ (verdicts ++ [(gate', v)]).map Prod.fst ↔
      gate ∈ verdicts.map Prod.fst ∨ gate = gate' := by
  rw [List.map_append, List.mem_append, List.map_singleton, List.mem_singleton]

structure Books (rs : List (GateRequest γ)) (unheard : List γ) (log : DaemonLog γ) : Prop where
  gates : (rs.map GateRequest.gate ++ unheard).Nodup
  heads {r r' id} : r ∈ rs → r' ∈ rs → r.head = some id → r'.head = some id → r = r'
  once : (log.verdicts.map Prod.fst).Nodup
  just {gate v} : (gate, v) ∈ log.verdicts →
    (∃ r ∈ rs, r.gate = gate ∧ r.Allows v) ∨ gate ∈ unheard ∧ v = .noDecision
  queued {send} : send ∈ log.queued → send.Plain ∨ send.Repeats rs log

namespace Books

variable {rs : List (GateRequest γ)} {unheard : List γ} {log : DaemonLog γ}

theorem empty : Books ([] : List (GateRequest γ)) [] .empty := by
  constructor <;> simp [DaemonLog.empty]

theorem of_gate (hb : Books rs unheard log) {r r' : GateRequest γ} (hr : r ∈ rs) (hr' : r' ∈ rs)
    (hgate : r.gate = r'.gate) : r = r' :=
  List.inj_on_of_nodup_map (List.nodup_append.mp hb.gates).1 hr hr' hgate

theorem heard (hb : Books rs unheard log) {r : GateRequest γ} (hr : r ∈ rs) : r.gate ∉ unheard :=
  fun hunheard => (List.nodup_append.mp hb.gates).2.2 _ (List.mem_map_of_mem hr) _ hunheard rfl

theorem queue (hb : Books rs unheard log) {new : List Send}
    (hnew : ∀ send ∈ new, send.Plain ∨ send.Repeats rs log) :
    Books rs unheard { log with queued := log.queued ++ new } where
  gates := hb.gates
  heads := hb.heads
  once := hb.once
  just := hb.just
  queued {send} hs := by
    rcases List.mem_append.mp hs with hs | hs
    · exact hb.queued hs
    · exact hnew send hs

theorem give (hb : Books rs unheard log) {r : GateRequest γ} {v : Verdict} (hr : r ∈ rs)
    (hallows : r.Allows v) (hnot : r.gate ∉ log.verdicts.map Prod.fst) :
    Books rs unheard { log with verdicts := log.verdicts ++ [(r.gate, v)] } where
  gates := hb.gates
  heads := hb.heads
  once := by
    rw [List.map_append, List.map_singleton, ← List.concat_eq_append]
    exact hb.once.concat hnot
  just {gate v'} hv := by
    rcases List.mem_append.mp hv with hv | hv
    · exact hb.just hv
    · rw [List.mem_singleton, Prod.mk.injEq] at hv
      obtain ⟨rfl, rfl⟩ := hv
      exact .inl ⟨r, hr, rfl, hallows⟩
  queued hs := (hb.queued hs).imp_right fun hs =>
    hs.mono (fun _ hr => hr) fun _ hv => List.mem_append_left _ hv

theorem enter (hb : Books rs [] log) {r : GateRequest γ}
    (hgate : r.gate ∉ rs.map GateRequest.gate)
    (hhead : ∀ r' ∈ rs, ∀ id, r'.head = some id → r.head ≠ some id) :
    Books (rs ++ [r]) [] log where
  gates := by
    have hgates := hb.gates
    rw [List.append_nil] at hgates ⊢
    rw [List.map_append, List.map_singleton, ← List.concat_eq_append]
    exact hgates.concat hgate
  heads {r₁ r₂ id} hr₁ hr₂ h₁ h₂ := by
    rw [List.mem_append, List.mem_singleton] at hr₁ hr₂
    rcases hr₁ with hr₁ | rfl <;> rcases hr₂ with hr₂ | rfl
    · exact hb.heads hr₁ hr₂ h₁ h₂
    · exact absurd h₂ (hhead r₁ hr₁ id h₁)
    · exact absurd h₁ (hhead r₂ hr₂ id h₂)
    · rfl
  once := hb.once
  just hv := by
    refine (hb.just hv).imp_left ?_
    rintro ⟨r', hr', hrest⟩
    exact ⟨r', List.mem_append_left _ hr', hrest⟩
  queued hs := (hb.queued hs).imp_right fun hs =>
    hs.mono (fun _ hr => List.mem_append_left _ hr) fun _ hv => hv

end Books

/-- The broker against the books: no head without a request, and no request without a verdict or a
head. -/
structure Ledger (rs : List (GateRequest γ)) (ready : List HeadId) (b : Broker γ)
    (log : DaemonLog γ) : Prop where
  books : Books rs [] log
  issued {r id} : r ∈ rs → r.head = some id → id.number < b.nextId
  awaited {id h} : b.heads.get? id = some h →
    ∃ r ∈ rs, r.Awaits id h ∧ r.gate ∉ log.verdicts.map Prod.fst
  answered {r} : r ∈ rs → r.gate ∈ log.verdicts.map Prod.fst ∨
    ∃ id h, r.head = some id ∧ b.heads.get? id = some h
  busy {id h} : b.heads.get? id = some h → 0 < h.live ∨ id ∈ ready

namespace Ledger

variable {rs : List (GateRequest γ)} {ready ready' : List HeadId} {b b' : Broker γ}
  {log : DaemonLog γ}

theorem extend (hl : Ledger rs ready b log) (new : List Send) (closed : List ChannelId)
    (hnext : b.nextId ≤ b'.nextId)
    (hsubject : ∀ id, (b'.heads.get? id).map Head.subject = (b.heads.get? id).map Head.subject)
    (hbusy : ∀ {id h}, b'.heads.get? id = some h → 0 < h.live ∨ id ∈ ready')
    (hnew : ∀ send ∈ new, send.Plain) :
    Ledger rs ready' b' { log with queued := log.queued ++ new, closed } where
  books :=
    have hbooks := hl.books.queue fun send hs => .inl (hnew send hs)
    ⟨hbooks.gates, hbooks.heads, hbooks.once, hbooks.just, hbooks.queued⟩
  issued hr hid := Nat.lt_of_lt_of_le (hl.issued hr hid) hnext
  awaited {id h'} hh' := by
    have hsame := hsubject id
    rw [hh', Option.map_some, eq_comm, Option.map_eq_some_iff] at hsame
    obtain ⟨h, hh, hsame⟩ := hsame
    obtain ⟨r, hr, ⟨hid, e, he, hneeds, hh⟩, hnot⟩ := hl.awaited hh
    exact ⟨r, hr, ⟨hid, e, he, hneeds, hsame ▸ hh⟩, hnot⟩
  answered {r} hr := by
    refine (hl.answered hr).imp_right ?_
    rintro ⟨id, h, hid, hh⟩
    have hsame := hsubject id
    rw [hh, Option.map_some, Option.map_eq_some_iff] at hsame
    obtain ⟨h', hh', -⟩ := hsame
    exact ⟨id, h', hid, hh'⟩
  busy := hbusy

theorem of_heads (hl : Ledger rs ready b log) (hheads : b'.heads = b.heads)
    (hnext : b.nextId ≤ b'.nextId) : Ledger rs ready b' log := by
  have hledger := hl.extend [] log.closed hnext (fun id => by rw [hheads])
    (fun hh => hl.busy (hheads ▸ hh)) (by simp)
  rw [List.append_nil] at hledger
  exact hledger

section Admit

variable {r : GateRequest γ} {new : List Send}

theorem unanswered (hl : Ledger rs [] b log) (hgate : r.gate ∉ rs.map GateRequest.gate) :
    r.gate ∉ log.verdicts.map Prod.fst := by
  intro hmem
  obtain ⟨⟨gate, v⟩, hv, hsame⟩ := List.mem_map.mp hmem
  obtain rfl : gate = r.gate := hsame
  rcases hl.books.just hv with ⟨r', hr', heq, -⟩ | ⟨hunheard, -⟩
  · exact hgate (heq ▸ List.mem_map_of_mem hr')
  · exact List.not_mem_nil hunheard

theorem enter_books (hl : Ledger rs [] b log) (hgate : r.gate ∉ rs.map GateRequest.gate)
    (hfresh : ∀ id, r.head = some id → b.nextId ≤ id.number) (hnew : ∀ send ∈ new, send.Plain) :
    Books (rs ++ [r]) [] { log with queued := log.queued ++ new } := by
  refine (hl.books.enter hgate fun r' hr' id hid hhead => ?_).queue fun send hs =>
    .inl (hnew send hs)
  exact Nat.not_lt.mpr (hfresh id hhead) (hl.issued hr' hid)

theorem enter_answered (hl : Ledger rs [] b log) {v : Verdict}
    (hgate : r.gate ∉ rs.map GateRequest.gate)
    (hfresh : ∀ id, r.head = some id → b.nextId ≤ id.number ∧ id.number < b'.nextId)
    (hnext : b.nextId ≤ b'.nextId) (hheads : ∀ id, b'.heads.get? id = b.heads.get? id)
    (hallows : r.Allows v) (hnew : ∀ send ∈ new, send.Plain) :
    Ledger (rs ++ [r]) [] b' { log with
      queued := log.queued ++ new
      verdicts := log.verdicts ++ [(r.gate, v)] } where
  books := by
    have hbooks := hl.enter_books hgate (fun id hid => (hfresh id hid).1) hnew
    exact hbooks.give (by simp) hallows (hl.unanswered hgate)
  issued {r' id} hr' hid := by
    rcases List.mem_append.mp hr' with hr' | hr'
    · exact Nat.lt_of_lt_of_le (hl.issued hr' hid) hnext
    · rw [List.mem_singleton.mp hr'] at hid
      exact (hfresh id hid).2
  awaited {id h} hh := by
    rw [hheads] at hh
    obtain ⟨r', hr', hawaits, hnot⟩ := hl.awaited hh
    refine ⟨r', List.mem_append_left _ hr', hawaits, ?_⟩
    rw [mem_gates_snoc, not_or]
    exact ⟨hnot, fun heq => hgate (heq ▸ List.mem_map_of_mem hr')⟩
  answered {r'} hr' := by
    rw [mem_gates_snoc]
    rcases List.mem_append.mp hr' with hr' | hr'
    · simp only [hheads]
      exact (hl.answered hr').imp_left .inl
    · rw [List.mem_singleton.mp hr']
      exact .inl (.inr rfl)
  busy hh := hl.busy (hheads _ ▸ hh)

theorem enter_awaited (hl : Ledger rs [] b log) {id : HeadId} {h : Head γ}
    (hgate : r.gate ∉ rs.map GateRequest.gate) (hawaits : r.Awaits id h)
    (hfresh : b.nextId ≤ id.number) (hnext : id.number < b'.nextId)
    (hheads : ∀ id', b'.heads.get? id' = if id' = id then some h else b.heads.get? id')
    (hlive : 0 < h.live) (hnew : ∀ send ∈ new, send.Plain) :
    Ledger (rs ++ [r]) [] b' { log with queued := log.queued ++ new } where
  books := hl.enter_books hgate (fun id' hid' => by
    obtain rfl := Option.some.inj (hawaits.1.symm.trans hid')
    exact hfresh) hnew
  issued {r' id'} hr' hid' := by
    rcases List.mem_append.mp hr' with hr' | hr'
    · exact Nat.lt_of_lt_of_le (hl.issued hr' hid') (Nat.le_of_lt (Nat.lt_of_le_of_lt hfresh hnext))
    · rw [List.mem_singleton.mp hr', hawaits.1] at hid'
      obtain rfl := Option.some.inj hid'
      exact hnext
  awaited {id' h'} hh' := by
    rw [hheads] at hh'
    split at hh'
    · subst id'
      obtain rfl := Option.some.inj hh'
      exact ⟨r, by simp, hawaits, hl.unanswered hgate⟩
    · obtain ⟨r', hr', hrest⟩ := hl.awaited hh'
      exact ⟨r', List.mem_append_left _ hr', hrest⟩
  answered {r'} hr' := by
    rcases List.mem_append.mp hr' with hr' | hr'
    · refine (hl.answered hr').imp_right ?_
      rintro ⟨id', h', hid', hh'⟩
      -- The id is new, so the head of an earlier request is another one.
      have hne : id' ≠ id := by
        rintro rfl
        exact Nat.not_lt.mpr hfresh (hl.issued hr' hid')
      exact ⟨id', h', hid', by rw [hheads, if_neg hne, hh']⟩
    · rw [List.mem_singleton.mp hr']
      exact .inr ⟨id, h, hawaits.1, by rw [hheads, if_pos rfl]⟩
  busy {id' h'} hh' := by
    rw [hheads] at hh'
    split at hh'
    · obtain rfl := Option.some.inj hh'
      exact .inl hlive
    · exact hl.busy hh'

end Admit

end Ledger

namespace Exchange

variable {ω σ : Type} {t : Transport σ} {x y : Exchange ω σ} {op : Operation ω} {r : Response}
  {ids : List HeadId}

def settles : Operation ω → Bool
  | .answer .. | .teardown _ => true
  | _ => false

theorem Effect.sends_of_settles (he : Effect t x op r y ids) (hop : settles op = true) :
    y.sends = x.sends := by
  cases he with
  | offered _ hoffer =>
    rcases hoffer with rfl | ⟨_, rfl⟩ <;> cases hop
  | _ => rfl

theorem Effect.subject_of_settles (he : Effect t x op r y ids) (hb : x.broker.Coherent)
    (hop : settles op = true) (id : HeadId) :
    (y.broker.heads.get? id).map Head.subject = (x.broker.heads.get? id).map Head.subject := by
  have hchange := he.subject hb id
  generalize (y.broker.heads.get? id).map Head.subject = subject at hchange
  cases hchange with
  | same => rfl
  | created hcreate => exact absurd hop (by simp [hcreate, settles])
  | waiterSet hset => exact absurd hop (by simp [hset, settles])
  | abandoned habandon => exact absurd hop (by simp [habandon, settles])

theorem Effect.live_of_settles (he : Effect t x op r y ids) (hb : x.broker.Coherent)
    (hop : settles op = true)
    (hlive : ∀ {id h}, x.broker.heads.get? id = some h → 0 < h.live) {id : HeadId} {h : Head ω}
    (hh : y.broker.heads.get? id = some h) : 0 < h.live ∨ id ∈ ids := by
  cases he with
  | answered verdict delegate hs hpending hi hhead hresult =>
    have hget := (Broker.heads_recordAnswer hhead ..).symm.trans hh
    split at hget
    · obtain rfl := Option.some.inj hget
      rcases hresult with ⟨-, rfl⟩ | ⟨-, rfl, hpos⟩
      · subst id
        exact .inr (List.mem_singleton_self _)
      · exact .inl hpos
    · exact .inl (hlive hget)
  | @tornDown s sess hs =>
    have hclosed := (closing_spec hb hs).1
    by_cases hzero : h.live = 0
    · obtain ⟨h₀, hh₀, hcases⟩ := hclosed.head_cases hb hh
      rcases hcases with ⟨rfl, -⟩ | ⟨i, inst, -, hi, hsession, hhead, -⟩
      · exact .inl (hlive hh₀)
      · exact .inr (hclosed.ready.mpr ⟨⟨i, inst, hi, hsession, hhead⟩, h, hh, hzero⟩)
    · exact .inl (Nat.pos_of_ne_zero hzero)
  | created | waiterSet | abandoned | absent | broadcast => cases hop
  | offered _ hoffer =>
    rcases hoffer with rfl | ⟨_, rfl⟩ <;> cases hop
  | _ => exact .inl (hlive hh)

end Exchange

namespace Daemon

open Exchange

variable {d : Daemon γ} {rs : List (GateRequest γ)}

theorem absorb_log (d : Daemon γ) (x : Exchange γ Connections) : (d.absorb x).log =
    { d.log with
      queued := d.log.queued ++ x.sends.filter (·.result.isOk)
      verdicts := d.log.verdicts ++ x.completions.map fun c => (c.waiter, c.verdict) } := rfl

theorem ledger_broadcast {id : HeadId} {rest : List HeadId} {h : Head γ}
    {y z : Exchange γ Connections} {new : List Send} (hb : y.broker.Coherent)
    (hh : y.broker.heads.get? id = some h) (hx : Broadcast id h y z new)
    (hl : Ledger rs (id :: rest) y.broker (d.absorb y).log) :
    Ledger rs rest z.broker (d.absorb z).log := by
  obtain ⟨r, hr, hawaits, hnot⟩ := hl.awaited hh
  have hawaits' := hawaits
  obtain ⟨hid, e, he, hneeds, hsubject⟩ := hawaits'
  simp only [Head.subject, Head.new, Prod.mk.injEq] at hsubject
  obtain ⟨-, htoken, -, -, hwaiter⟩ := hsubject
  have hlog : (d.absorb z).log =
      { (d.absorb y).log with
        queued := (d.absorb y).log.queued ++ new.filter (·.result.isOk)
        verdicts := (d.absorb y).log.verdicts ++ [(r.gate, h.outcome)] } := by
    simp only [absorb_log, hx.sends, hx.completions, hwaiter, List.filter_append, List.map_append,
      List.append_assoc]
    rfl
  have hgiven := hl.books.give hr (hawaits.allows h.outcome) hnot
  rw [hlog]
  have hheads {id' h'} (hh' : z.broker.heads.get? id' = some h') :
      id' ≠ id ∧ y.broker.heads.get? id' = some h' := by
    rw [hx.heads, Table.get?_erase] at hh'
    split at hh'
    · cases hh'
    · rename_i hne
      exact ⟨hne, hh'⟩
  constructor
  · refine hgiven.queue fun send hs => .inr ?_
    obtain ⟨p, howed, htells⟩ := hx.owed hb hh (List.mem_of_mem_filter hs)
    refine ⟨r, hr, p.2.session, id, e, h.decidedBy p.1, h.deciderUid, h.outcome, hid, ?_, he, ?_,
      ?_⟩
    · rw [htells.purpose, howed.head]
    · rw [Message.decode_outcome htells.message, howed.token, htoken]
    · exact List.mem_append_right _ (List.mem_singleton_self _)
  · intro r' id' hr' hid'
    rw [hx.nextId]
    exact hl.issued hr' hid'
  · intro id' h' hh'
    obtain ⟨hne, hh'⟩ := hheads hh'
    obtain ⟨r', hr', hawaits', hnot'⟩ := hl.awaited hh'
    refine ⟨r', hr', hawaits', ?_⟩
    rw [mem_gates_snoc, not_or]
    refine ⟨hnot', fun hgate => hne ?_⟩
    -- Two heads that are waited for by one gate are one head.
    rw [hl.books.of_gate hr' hr hgate, GateRequest.Awaits, hid] at hawaits'
    exact (Option.some.inj hawaits'.1).symm
  · intro r' hr'
    rw [mem_gates_snoc]
    rcases hl.answered hr' with hgate | ⟨id', h', hid', hh'⟩
    · exact .inl (.inl hgate)
    · by_cases hsame : id' = id
      · rw [hl.books.heads hr' hr hid' (hsame ▸ hid)]
        exact .inl (.inr rfl)
      · refine .inr ⟨id', h', hid', ?_⟩
        rw [hx.heads, Table.get?_erase, if_neg hsame, hh']
  · intro id' h' hh'
    obtain ⟨hne, hh'⟩ := hheads hh'
    exact (hl.busy hh').imp_right fun hmem => List.mem_of_ne_of_mem hne hmem

theorem ledger_operate (hb : d.broker.Coherent) (hl : Ledger rs [] d.broker d.log)
    {op : Operation γ} (hop : settles op = true) :
    Ledger rs [] (d.operate op).broker (d.operate op).log := by
  obtain ⟨y, ids, he, hy⟩ := performs (t := d.transport) (x := d.exchange) hb op
  unfold operate
  rw [hy]
  refine resolveAll_induction (P := fun ready z => Ledger rs ready z.broker (d.absorb z).log)
    d.transport (he.coherent hb) (he.ready hb) ?_ fun hb hh hx hl => ledger_broadcast hb hh hx hl
  have hquiet := he.quiet hb
  have hlog : (d.absorb y).log = { d.log with queued := d.log.queued ++ [] } := by
    rw [absorb_log, he.sends_of_settles hop, hquiet.completions]
    simp [exchange, start]
  rw [hlog]
  refine hl.extend [] d.log.closed hquiet.nextId (he.subject_of_settles hb hop) ?_ (by simp)
  exact fun hh => he.live_of_settles hb hop
    (fun hh => (hl.busy hh).resolve_right List.not_mem_nil) hh

end Daemon

end Arbiter
