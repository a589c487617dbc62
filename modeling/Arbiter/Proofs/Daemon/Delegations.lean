import Arbiter.Proofs.Daemon.Turns

/-!
What is recorded with a head while it waits. It is the verdict of the last answer to it that was
delegated, and no decision before there is one; whatever else the daemon does leaves it alone.
-/

namespace Arbiter

open Exchange

variable {γ : Type}

def Broker.headOf? (b : Broker γ) (s : SessionId) (token : UInt64) : Option HeadId :=
  ((b.awaited? s token).bind b.instances.get?).map Instance.head

def Broker.recorded (b : Broker γ) (id : HeadId) : Verdict :=
  ((b.heads.get? id).map Head.outcome).getD .noDecision

theorem Broker.recorded_of_head {b : Broker γ} {id : HeadId} {h : Head γ}
    (hh : b.heads.get? id = some h) : b.recorded id = h.outcome := by
  unfold recorded
  rw [hh]
  rfl

theorem Broker.recorded_of_absent {b : Broker γ} {id : HeadId} (hh : b.heads.get? id = none) :
    b.recorded id = .noDecision := by
  unfold recorded
  rw [hh]
  rfl

def lastFor (given : List (HeadId × Verdict)) (id : HeadId) : Option Verdict :=
  ((given.filter (·.1 = id)).map Prod.snd).getLast?

theorem lastFor_append (given given' : List (HeadId × Verdict)) (id : HeadId) :
    lastFor (given ++ given') id = (lastFor given' id).or (lastFor given id) := by
  unfold lastFor
  rw [List.filter_append, List.map_append, List.getLast?_append]

theorem lastFor_eq_none {given : List (HeadId × Verdict)} {id : HeadId}
    (h : ∀ p ∈ given, p.1 ≠ id) : lastFor given id = none := by
  have hnone : given.filter (·.1 = id) = [] := by
    rw [List.filter_eq_nil_iff]
    intro p hp
    rw [decide_eq_true_eq]
    exact h p hp
  unfold lastFor
  rw [hnone]
  rfl

theorem lastFor_singleton (id : HeadId) (verdict : Verdict) :
    lastFor [(id, verdict)] id = some verdict := by
  simp [lastFor]

namespace Daemon

variable {d d' d'' : Daemon γ} {channel : ChannelId} {m : Message}

/-- The head and the verdict of an answer that the broker takes and that is delegated. -/
def delegated? (d : Daemon γ) (op : Operation γ) : Option (HeadId × Verdict) :=
  match op, (d.exchange.perform d.transport op).1 with
  | .answer s token verdict _, .answered .delegated =>
    (d.broker.headOf? s token).map fun id => (id, verdict)
  | _, _ => none

def delegation? (d : Daemon γ) : DaemonEvent γ → Option (HeadId × Verdict)
  | .frame channel m => if d.running then (d.answerIn? channel m).bind d.delegated? else none
  | _ => none

def delegations (d : Daemon γ) : List (DaemonEvent γ) → List (HeadId × Verdict)
  | [] => []
  | e :: events => (d.delegation? e).toList ++ delegations (d.step e) events

theorem delegations_snoc (d : Daemon γ) (events : List (DaemonEvent γ)) (e : DaemonEvent γ) :
    d.delegations (events ++ [e]) =
      d.delegations events ++ ((d.run events).delegation? e).toList := by
  induction events generalizing d with
  | nil => exact List.append_nil _
  | cons e' events ih =>
    rw [List.cons_append, delegations, ih, delegations, List.append_assoc]
    rfl

/-- From `d` to `d'` a head that waits was there before or is new, and all that was recorded with it
in between are the answers given. -/
structure Keeps (given : List (HeadId × Verdict)) (d d' : Daemon γ) : Prop where
  before : d.broker.Coherent
  after : d'.broker.Coherent
  next : d.broker.nextId ≤ d'.broker.nextId
  issued {p : HeadId × Verdict} : p ∈ given → p.1.number < d'.broker.nextId
  head {id : HeadId} {h' : Head γ} : d'.broker.heads.get? id = some h' →
    (d.broker.heads.get? id ≠ none ∨ d.broker.nextId ≤ id.number) ∧
      h'.outcome = (lastFor given id).getD (d.broker.recorded id)

namespace Keeps

theorem quiet (hb : d.broker.Coherent) (hb' : d'.broker.Coherent)
    (hheads : d'.broker.heads = d.broker.heads) (hnext : d.broker.nextId ≤ d'.broker.nextId) :
    Keeps [] d d' where
  before := hb
  after := hb'
  next := hnext
  issued hp := absurd hp List.not_mem_nil
  head hh := by
    rw [hheads] at hh
    exact ⟨.inl (hh ▸ Option.some_ne_none _), (Broker.recorded_of_head hh).symm⟩

theorem refl (hb : d.broker.Coherent) : Keeps [] d d := quiet hb hb rfl (Nat.le_refl _)

theorem trans {given given' : List (HeadId × Verdict)} (h : Keeps given d d')
    (h' : Keeps given' d' d'') : Keeps (given ++ given') d d'' where
  before := h.before
  after := h'.after
  next := Nat.le_trans h.next h'.next
  issued hp := by
    rcases List.mem_append.mp hp with hp | hp
    · exact Nat.lt_of_lt_of_le (h.issued hp) h'.next
    · exact h'.issued hp
  head {id h''} hh'' := by
    obtain ⟨hsource, houtcome⟩ := h'.head hh''
    rw [houtcome, lastFor_append]
    cases hh' : d'.broker.heads.get? id with
    | some h₁ =>
      obtain ⟨hfirst, hrecorded⟩ := h.head hh'
      refine ⟨hfirst, ?_⟩
      rw [Broker.recorded_of_head hh', hrecorded]
      cases lastFor given' id <;> rfl
    | none =>
      -- The head is new to `d'`, so nothing was recorded with it before.
      have hfresh' : d'.broker.nextId ≤ id.number := hsource.resolve_left (· hh')
      have hfresh := Nat.le_trans h.next hfresh'
      have hnone : lastFor given id = none := by
        refine lastFor_eq_none fun p hp hid => ?_
        exact Nat.not_lt.mpr hfresh' (hid ▸ h.issued hp)
      rw [hnone, Option.or_none, Broker.recorded_of_absent hh',
        Broker.recorded_of_absent (h.before.head_fresh hfresh)]
      exact ⟨.inr hfresh, rfl⟩

theorem followed {given : List (HeadId × Verdict)} (h : Keeps given d d') (h' : Keeps [] d' d'') :
    Keeps given d d'' := by
  have hboth := h.trans h'
  rwa [List.append_nil] at hboth

end Keeps

theorem headOf?_eq {s : SessionId} {token : UInt64} {sess : Session}
    {i : InstanceId} {inst : Instance} (hs : d.broker.sessions.get? s = some sess)
    (hpending : sess.pending.get? token = some i) (hi : d.broker.instances.get? i = some inst) :
    d.broker.headOf? s token = some inst.head := by
  unfold Broker.headOf? Broker.awaited?
  rw [hs, Option.bind_some, hpending, Option.bind_some, hi]
  rfl

theorem effect_keeps (hb : d.broker.Coherent) {op : Operation γ} (hop : settles op = true)
    {y : Exchange γ Connections} {ids : List HeadId}
    (he : Effect d.transport d.exchange op (d.exchange.perform d.transport op).1 y ids)
    {id : HeadId} {h' : Head γ} (hh' : y.broker.heads.get? id = some h') :
    id ∈ ids ∨ d.broker.heads.get? id ≠ none ∧
      h'.outcome = (lastFor (d.delegated? op).toList id).getD (d.broker.recorded id) := by
  unfold delegated?
  generalize (d.exchange.perform d.transport op).1 = r at he
  have hkept (hsame : (y.broker.heads.get? id).map Head.account =
      (d.broker.heads.get? id).map Head.account) : d.broker.heads.get? id ≠ none ∧
      h'.outcome = d.broker.recorded id := by
    rw [hh', Option.map_some, eq_comm, Option.map_eq_some_iff] at hsame
    obtain ⟨h, hh, hsame⟩ := hsame
    have houtcome : h.outcome = h'.outcome := congrArg (fun p => p.2.2.2) hsame
    exact ⟨hh ▸ Option.some_ne_none _, by rw [Broker.recorded_of_head hh, houtcome]⟩
  cases he with
  | refused op cause =>
    refine .inr ?_
    cases op <;> exact hkept rfl
  | duplicate => exact .inr (hkept rfl)
  | tornDown hs => exact .inr (hkept ((closing_spec hb hs).1.account hb id))
  | @answered s token sess i inst h result ready verdict delegate hs hpending hi hh hresult =>
    have hhead := headOf?_eq hs hpending hi
    have hget := (Broker.heads_recordAnswer hh ..).symm.trans hh'
    split at hget
    · subst id
      rcases hresult with ⟨-, rfl⟩ | ⟨rfl, rfl, -⟩
      · exact .inl (List.mem_singleton_self _)
      · obtain rfl := Option.some.inj hget
        refine .inr ⟨fun hnone => Option.some_ne_none _ (hh.symm.trans hnone), ?_⟩
        simp only [hhead, Option.map_some, Option.toList_some, lastFor_singleton]
        rfl
    · rename_i hother
      have hsame := hkept (hh' ▸ congrArg (Option.map Head.account) hget.symm)
      refine .inr (hsame.imp_right fun houtcome => ?_)
      rcases hresult with ⟨rfl, -⟩ | ⟨rfl, -, -⟩
      · exact houtcome
      · have hnone : lastFor [(inst.head, verdict)] id = none := by
          refine lastFor_eq_none fun p hp hid => hother ?_
          rw [← hid, List.mem_singleton.mp hp]
        simp only [hhead, Option.map_some, Option.toList_some, hnone]
        exact houtcome
  | created | waiterSet | abandoned | absent | broadcast | opened => cases hop
  | registered hregister =>
    obtain ⟨g, rfl | rfl⟩ := hregister <;> cases hop
  | offered _ hoffer =>
    rcases hoffer with rfl | ⟨_, rfl⟩ <;> cases hop

theorem delegated?_issued (hb : d.broker.Coherent) {op : Operation γ} {p : HeadId × Verdict}
    (h : d.delegated? op = some p) : p.1.number < d.broker.nextId := by
  unfold delegated? at h
  split at h
  · rename_i s token verdict delegate hresponse
    obtain ⟨id, hid, rfl⟩ := Option.map_eq_some_iff.mp h
    obtain ⟨inst, hinst, rfl⟩ := Option.map_eq_some_iff.mp hid
    obtain ⟨i, -, hi⟩ := Option.bind_eq_some_iff.mp hinst
    obtain ⟨head, hh, -⟩ := hb.listed hi
    refine Nat.lt_of_not_le fun hfresh => ?_
    rw [hb.head_fresh hfresh] at hh
    cases hh
  · cases h

theorem keeps_operate (hb : d.broker.Coherent) {op : Operation γ} (hop : settles op = true) :
    Keeps (d.delegated? op).toList d (d.operate op) := by
  have hnext : d.broker.nextId ≤ (d.operate op).broker.nextId :=
    nextId_perform (x := d.exchange) hb op
  refine {
    before := hb
    after := coherent_perform (x := d.exchange) hb op
    next := hnext
    issued := fun {p} hp => ?issued
    head := fun {id h'} hh' => ?head }
  case issued =>
    have hgiven := delegated?_issued hb (Option.mem_toList.mp hp)
    exact Nat.lt_of_lt_of_le hgiven hnext
  case head =>
    obtain ⟨y, ids, he, hy⟩ := performs (t := d.transport) (x := d.exchange) hb op
    -- A head that is ready is resolved before the operation ends.
    have hend := resolveAll_induction (P := fun ready z => ∀ id h',
        z.broker.heads.get? id = some h' → id ∈ ready ∨ d.broker.heads.get? id ≠ none ∧
          h'.outcome = (lastFor (d.delegated? op).toList id).getD (d.broker.recorded id))
      d.transport (he.coherent hb) (he.ready hb)
      (fun id h' hh' => effect_keeps hb hop he hh') fun {id rest h y z new} _ _ hx hy => by
        intro id' h' hh'
        rw [hx.heads, Table.get?_erase] at hh'
        split at hh'
        · cases hh'
        · rename_i hother
          exact (hy id' h' hh').imp_left (List.mem_of_ne_of_mem hother)
    unfold operate at hh'
    rw [hy] at hh'
    exact ((hend id h' hh').resolve_left List.not_mem_nil).imp_left .inl

theorem keeps_teardown (hb : d.broker.Coherent) (s : SessionId) :
    Keeps [] d (d.operate (.teardown s)) := by
  have hkept : Keeps (d.delegated? (.teardown s)).toList d (d.operate (.teardown s)) :=
    keeps_operate hb rfl
  exact hkept

theorem keeps_close (hb : d.broker.Coherent) (channel : ChannelId) :
    Keeps [] d (d.close channel) := by
  have hdisconnect : Keeps [] d (d.disconnect channel) := .quiet hb hb rfl (Nat.le_refl _)
  cases hc : d.connections.get? channel with
  | none =>
    rw [close_of_absent hc]
    exact .refl hb
  | some c =>
    cases hsession : c.session with
    | none =>
      rw [close_of_newcomer hc hsession]
      exact hdisconnect
    | some s =>
      rw [close_of_member hc hsession]
      exact hdisconnect.followed (keeps_teardown (d := d.disconnect channel) hb s)

theorem keeps_send (hb : d.broker.Coherent) (channel : ChannelId) (m : Message) :
    Keeps [] d (d.absorb (d.exchange.send d.transport .reply channel m).2) :=
  .quiet hb hb rfl (Nat.le_refl _)

theorem keeps_reply (hb : d.broker.Coherent) (channel : ChannelId) (token : UInt64)
    (opcode : UInt32) (error : Int32) : Keeps [] d (d.reply channel token opcode error) := by
  unfold reply
  split
  · exact .refl hb
  · rename_i m _
    have hsent := keeps_send hb channel m
    split <;> rename_i heq <;> rw [heq] at hsent
    · exact hsent
    · exact hsent.followed (keeps_close hsent.after channel)

theorem keeps_accept (hb : d.broker.Coherent) (uid : UInt32) : Keeps [] d (d.accept uid) := by
  have hconnect : Keeps [] d (d.connect uid) := .quiet hb hb rfl (Nat.le_refl _)
  unfold accept
  split
  · exact hconnect
  · exact hconnect.followed (keeps_send (d := d.connect uid) hb _ _)

theorem keeps_change (hb : d.broker.Coherent) (channel : ChannelId) (token : UInt64)
    (opcode : UInt32) {result : Except Refusal (Broker γ)}
    (hresult : ∀ b, result = .ok b → b.Coherent ∧ b.heads = d.broker.heads ∧
      b.nextId = d.broker.nextId) :
    Keeps [] d (d.change channel token opcode result) := by
  unfold change
  split
  · rename_i b
    obtain ⟨hb', hheads, hnext⟩ := hresult b rfl
    have hchanged : Keeps [] d { d with broker := b } := .quiet hb hb' hheads hnext.ge
    exact hchanged.followed (keeps_reply (d := { d with broker := b }) hb' ..)
  · exact keeps_reply hb ..

theorem keeps_handshake (hb : d.broker.Coherent) (channel : ChannelId) (uid : UInt32)
    (content : Content) (token : UInt64) (opcode : UInt32) :
    Keeps [] d (d.handshake channel uid content token opcode) := by
  have hrefused (token : UInt64) (error : Int32) :
      Keeps [] d ((d.reply channel token opcode error).close channel) := by
    have hreply := keeps_reply hb channel token opcode error
    exact hreply.followed (keeps_close hreply.after channel)
  unfold handshake
  split
  · split
    · have hopen : Keeps [] d (d.openSession channel uid) :=
        .quiet hb (hb.openSession uid channel) rfl (Nat.le_succ _)
      exact hopen.followed (keeps_reply hopen.after ..)
    · exact hrefused _ _
  · exact hrefused _ _

theorem keeps_request (hb : d.broker.Coherent) (channel : ChannelId) (s : SessionId)
    (content : Content) (token : UInt64) (opcode : UInt32) :
    Keeps ((content.answer? s).bind d.delegated?).toList d
      (d.request channel s content token opcode) := by
  unfold request
  cases content with
  | register r =>
    refine keeps_change hb channel _ opcode fun b hregister => ⟨coherent_register hb hregister, ?_⟩
    obtain ⟨regs, rfl⟩ := Broker.register_eq hregister
    exact ⟨rfl, rfl⟩
  | unregister r =>
    refine keeps_change hb channel _ opcode fun b hregister =>
      ⟨coherent_unregister hb hregister, ?_⟩
    obtain ⟨regs, rfl⟩ := Broker.unregister_eq hregister
    exact ⟨rfl, rfl⟩
  | answer token' verdict delegate =>
    have hanswered : Keeps (d.delegated? (.answer s token' verdict delegate)).toList d
        (d.operate (.answer s token' verdict delegate)) := keeps_operate hb rfl
    show Keeps (d.delegated? (.answer s token' verdict delegate)).toList d _
    unfold operate at hanswered
    simp only [perform] at hanswered
    simp only
    split <;> rename_i heq <;> rw [heq] at hanswered
    · exact hanswered
    · exact hanswered.followed (keeps_reply hanswered.after ..)
  | close token' =>
    have hreply := keeps_reply hb channel token' opcode Errno.ok
    exact hreply.followed (keeps_close hreply.after channel)
  | _ => exact keeps_reply hb ..

theorem keeps_handleFrame (hb : d.broker.Coherent) (channel : ChannelId) (m : Message) :
    Keeps ((d.answerIn? channel m).bind d.delegated?).toList d (d.handleFrame channel m) := by
  have hnothing : Keeps [] d d := .refl hb
  unfold handleFrame answerIn?
  cases hc : d.connections.get? channel with
  | none => exact hnothing
  | some c =>
    cases hcheck : m.check with
    | error fault => exact hnothing
    | ok =>
      cases hdecode : m.decode with
      | error fault => exact hnothing
      | ok content =>
        simp only
        cases hsession : c.session with
        | none => exact keeps_handshake hb ..
        | some s => exact keeps_request hb ..

theorem Offered.keeps {e : Event} {x : Exchange γ Connections} {h : Head γ}
    (ho : Offered d m e x h) (hb : d.broker.Coherent) (hb' : d'.broker.Coherent)
    (hnext : d'.broker.nextId = x.broker.nextId)
    (hheads : ∀ id h', d'.broker.heads.get? id = some h' →
      ∃ h, x.broker.heads.get? id = some h ∧ h'.outcome = h.outcome) : Keeps [] d d' where
  before := hb
  after := hb'
  next := hnext ▸ Nat.le_of_lt ho.fresh
  issued hp := absurd hp List.not_mem_nil
  head {id h'} hh' := by
    obtain ⟨h₁, hh₁, houtcome⟩ := hheads id h' hh'
    have haccount := offers_account ho.offers id
    rw [hh₁, show (d.admitted m e).exchange.broker.heads.get? id = _ from
      d.broker.get?_withHead m e id] at haccount
    split at haccount
    · -- The head of the event itself.
      subst id
      have hsame : h₁.outcome = .noDecision :=
        congrArg (fun p => p.2.2.2) (Option.some.inj haccount)
      refine ⟨.inr (Nat.le_refl _), ?_⟩
      rw [houtcome, hsame, Broker.recorded_of_absent (hb.head_fresh (Nat.le_refl _))]
      rfl
    · obtain ⟨h₀, hh₀, hsame⟩ := Option.map_eq_some_iff.mp haccount.symm
      have hsame : h₀.outcome = h₁.outcome := congrArg (fun p => p.2.2.2) hsame
      refine ⟨.inl (hh₀ ▸ Option.some_ne_none _), ?_⟩
      rw [houtcome, ← hsame, Broker.recorded_of_head hh₀]
      rfl

theorem keeps_handleGate (hb : d.broker.Coherent) (gate : γ) (m : Message) :
    Keeps [] d (d.handleGate gate m) := by
  have hd := handled d gate m
  have hb' := hd.coherent hb
  generalize d.handleGate gate m = d' at hd hb'
  cases hd with
  | malformed => exact .quiet hb hb rfl (Nat.le_refl _)
  | @waiting e x h hm hask ho hlive =>
    refine ho.keeps hb hb' rfl fun id h' hh' => ?_
    have hget := (Table.get?_modify_of_get? ho.present _ id).symm.trans hh'
    split at hget
    · subst id
      exact ⟨h, ho.present, by rw [← Option.some.inj hget]; rfl⟩
    · exact ⟨h', hget, rfl⟩
  | @answered e x h v hm hv ho hinstances =>
    refine ho.keeps hb hb' rfl fun id h' hh' => ?_
    have hget := (Table.get?_erase ..).symm.trans hh'
    split at hget
    · cases hget
    · exact ⟨h', hget, rfl⟩

theorem keeps_reap (hb : d.broker.Coherent) (s : SessionId) : Keeps [] d (d.reap s) := by
  unfold reap
  split
  · exact keeps_close hb _
  · exact keeps_teardown hb s

theorem keeps_foldl {α : Type} {f : Daemon γ → α → Daemon γ}
    (hf : ∀ {d : Daemon γ} (a), d.broker.Coherent → Keeps [] d (f d a)) (as : List α)
    (hb : d.broker.Coherent) : Keeps [] d (as.foldl f d) := by
  induction as generalizing d with
  | nil => exact .refl hb
  | cons a as ih => exact (hf a hb).followed (ih (hf a hb).after)

theorem keeps_reapRounds (hb : d.broker.Coherent) (rounds : Nat) :
    Keeps [] d (reapRounds rounds d) := by
  induction rounds generalizing d with
  | zero => exact .refl hb
  | succ rounds ih =>
    unfold reapRounds
    split
    · exact .refl hb
    · have hreaped := keeps_foldl (fun s hb => keeps_reap hb s) d.broker.lostSessions hb
      exact hreaped.followed (ih hreaped.after)

theorem keeps_shutdown (hb : d.broker.Coherent) (order : List ChannelId) (waiting : List γ) :
    Keeps [] d (d.shutdown order waiting) := by
  have hclosed := keeps_foldl (fun channel hb => keeps_close hb channel) order hb
  have hdismissed := keeps_foldl (f := fun d gate => d.giveVerdict gate .noDecision)
    (fun gate hb => .quiet hb hb rfl (Nat.le_refl _)) waiting hclosed.after
  have hstopped := hclosed.followed hdismissed
  exact hstopped.followed (.quiet hstopped.after hstopped.after rfl (Nat.le_refl _))

theorem keeps_step (hb : d.broker.Coherent) (e : DaemonEvent γ) :
    Keeps (d.delegation? e).toList d (d.step e) := by
  have hreaped {given : List (HeadId × Verdict)} {d' : Daemon γ} (h : Keeps given d d') :
      Keeps given d d'.reapLost := h.followed (keeps_reapRounds h.after _)
  unfold step delegation?
  cases hrunning : d.running with
  | false => cases e <;> exact .refl hb
  | true =>
    cases e with
    | accept uid => exact hreaped (keeps_accept hb uid)
    | frame channel m => exact hreaped (keeps_handleFrame hb channel m)
    | hangUp channel => exact hreaped (keeps_close hb channel)
    | gate gate m => exact hreaped (keeps_handleGate hb gate m)
    | drain channel count => exact .quiet hb hb rfl (Nat.le_refl _)
    | writeFailed channel => exact .quiet hb hb rfl (Nat.le_refl _)
    | shutdown order waiting => exact keeps_shutdown hb order waiting

theorem keeps_run (settings : DaemonSettings) (events : List (DaemonEvent γ)) :
    Keeps ((new settings).delegations events) (new settings) ((new settings).run events) :=
  run_induction (I := fun events d => Keeps ((new settings).delegations events) (new settings) d)
    (.refl (Broker.coherent_new _)) (fun {events} e ih => by
      rw [delegations_snoc]
      exact ih.trans (keeps_step ih.after e)) events

theorem recorded_run (settings : DaemonSettings) (events : List (DaemonEvent γ)) {id : HeadId}
    {h : Head γ} (hh : ((new settings).run events).broker.heads.get? id = some h) :
    h.outcome = (lastFor ((new settings).delegations events) id).getD .noDecision := by
  have houtcome := ((keeps_run settings events).head hh).2
  rwa [Broker.recorded_of_absent rfl] at houtcome

end Daemon

end Arbiter
