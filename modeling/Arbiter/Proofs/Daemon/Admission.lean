import Arbiter.Proofs.Broker.Fanout
import Arbiter.Proofs.Broker.Results
import Arbiter.Proofs.Daemon.Ledger

/-!
A gate request from start to end. A message that is no event is answered; an event gets a head and
is offered to all, and then either somebody took it and the gate waits for the head, or nobody is
to be waited for and the head is dropped again.
-/

namespace Arbiter

variable {γ : Type}

section Head

variable {b : Broker γ} {m : Message}

theorem Broker.createHead_of_malformed (hm : ∀ e, m.decode ≠ .ok (.event e))
    (waiter : Option γ) : ∃ cause, b.createHead m waiter = .error cause := by
  unfold createHead
  cases hdecode : m.decode with
  | error fault => exact ⟨_, rfl⟩
  | ok content =>
    cases content with
    | event e => exact absurd hdecode (hm e)
    | _ => exact ⟨_, rfl⟩

def Broker.withHead (b : Broker γ) (m : Message) (e : Event) : Broker γ :=
  { b with heads := b.heads.insert ⟨b.nextId⟩ (.new m e none), nextId := b.nextId + 1 }

theorem Broker.createHead_of_event {e : Event} (hm : m.decode = .ok (.event e)) :
    b.createHead m none = .ok (⟨b.nextId⟩, b.withHead m e) := by
  unfold createHead
  rw [hm]
  rfl

theorem Broker.get?_withHead (b : Broker γ) (m : Message) (e : Event) (id : HeadId) :
    (b.withHead m e).heads.get? id =
      if id = ⟨b.nextId⟩ then some (.new m e none) else b.heads.get? id :=
  Table.get?_insert ..

end Head

namespace Daemon

open Exchange

variable {d : Daemon γ} {gate : γ} {m : Message} {e : Event}

def admitted (d : Daemon γ) (m : Message) (e : Event) : Daemon γ :=
  { d with broker := d.broker.withHead m e }

theorem headFor?_of_malformed (hm : ∀ e, m.decode ≠ .ok (.event e)) : d.headFor? m = none := by
  obtain ⟨cause, hcreate⟩ := d.broker.createHead_of_malformed hm none
  unfold headFor?
  rw [hcreate]

theorem headFor?_of_event (hm : m.decode = .ok (.event e)) :
    d.headFor? m = some ⟨d.broker.nextId⟩ := by
  unfold headFor?
  rw [Broker.createHead_of_event hm]

/-- The event was offered: what the broker and the connections came to in `x`, with its head. -/
structure Offered (d : Daemon γ) (m : Message) (e : Event) (x : Exchange γ Connections)
    (h : Head γ) : Prop where
  offers : Relation.ReflTransGen (Offer d.transport ⟨d.broker.nextId⟩) (d.admitted m e).exchange x
  carries : d.transport.Carries d.connections x.transport
  present : x.broker.heads.get? ⟨d.broker.nextId⟩ = some h
  subject : h.subject = (Head.new m e none : Head γ).subject

inductive Handled (d : Daemon γ) (gate : γ) (m : Message) : Daemon γ → Prop where
  | malformed (hm : ∀ e, m.decode ≠ .ok (.event e)) :
      Handled d gate m (d.giveVerdict gate .noDecision)
  | waiting {e x h} (hm : m.decode = .ok (.event e)) (hask : e.needsVerdict = true)
      (ho : Offered d m e x h) (hlive : 0 < h.live) :
      Handled d gate m { (d.admitted m e).absorb x with
        broker := x.broker.modifyHead ⟨d.broker.nextId⟩ fun h => { h with waiter := some gate } }
  | answered {e x h v} (hm : m.decode = .ok (.event e))
      (hv : v = if e.needsVerdict then d.settings.verdict else .allow) (ho : Offered d m e x h)
      (hinstances : h.instances = []) :
      Handled d gate m ({ (d.admitted m e).absorb x with
        broker := { x.broker with heads := x.broker.heads.erase ⟨d.broker.nextId⟩ } }.giveVerdict
          gate v)

theorem handleGate_of_event (hm : m.decode = .ok (.event e)) :
    d.handleGate gate m =
      let kind := (Head.new m e none : Head γ).kind
      let result := (d.admitted m e).exchange.dispatchAll d.transport ⟨d.broker.nextId⟩
      let offered := (d.admitted m e).absorb result.2
      let delivered := match result.1 with
        | .ok n => n
        | .error _ => 0
      if some kind = some .ask ∧ 0 < delivered then
        match offered.broker.setWaiter ⟨d.broker.nextId⟩ gate with
        | .ok broker => { offered with broker }
        | .error _ => offered
      else offered.answerAtOnce gate ⟨d.broker.nextId⟩ (some kind) := by
  have hkind : (d.broker.withHead m e).headKind? ⟨d.broker.nextId⟩ =
      some (Head.new m e none : Head γ).kind := by
    rw [Broker.headKind?, Broker.get?_withHead, if_pos rfl]
    rfl
  unfold handleGate
  rw [Broker.createHead_of_event hm]
  simp only [hkind]
  rfl

theorem kind_eq_ask : (Head.new m e none : Head γ).kind = .ask ↔ e.needsVerdict = true := by
  cases hneeds : e.needsVerdict <;> simp [Head.new, hneeds]

theorem exists_offered (d : Daemon γ) (m : Message) (e : Event) : ∃ n h,
    ((d.admitted m e).exchange.dispatchAll d.transport ⟨d.broker.nextId⟩).1 = .ok n ∧
      Offered d m e ((d.admitted m e).exchange.dispatchAll d.transport ⟨d.broker.nextId⟩).2 h ∧
      (e.needsVerdict = true → h.live = n) ∧
      (¬(e.needsVerdict = true ∧ 0 < n) → h.instances = []) := by
  have hhead : (d.admitted m e).exchange.broker.heads.get? ⟨d.broker.nextId⟩ =
      some (.new m e none) := by
    refine (d.broker.get?_withHead m e _).trans ?_
    rw [if_pos rfl]
  obtain ⟨n, hresult, h, hh, hsubject, hask, hnotify⟩ :=
    dispatchAll_spread (t := d.transport) hhead rfl rfl
  refine ⟨n, h, hresult, ⟨dispatchAll_offers .., ?_, hh, hsubject⟩, ?_, ?_⟩
  · exact dispatchAll_carries d.transport (d.admitted m e).exchange _
  · intro hneeds
    exact (hask (kind_eq_ask.mpr hneeds)).1
  · intro hnot
    cases hneeds : e.needsVerdict with
    | false => exact hnotify (by simp [Head.new, hneeds])
    | true =>
      have hzero : n = 0 := Nat.eq_zero_of_not_pos fun hpos => hnot ⟨hneeds, hpos⟩
      exact List.eq_nil_of_length_eq_zero ((hask (kind_eq_ask.mpr hneeds)).2.trans hzero)

theorem handled (d : Daemon γ) (gate : γ) (m : Message) :
    Handled d gate m (d.handleGate gate m) := by
  by_cases hm : ∃ e, m.decode = .ok (.event e)
  · obtain ⟨e, hm⟩ := hm
    obtain ⟨n, h, hresult, ho, hlive, hinstances⟩ := d.exists_offered m e
    rw [handleGate_of_event hm]
    simp only [hresult, Option.some.injEq, kind_eq_ask]
    split
    · rename_i hwaits
      obtain ⟨hneeds, hpos⟩ := hwaits
      simp only [Broker.setWaiter, Table.contains, absorb, ho.present, Option.isSome_some,
        ↓reduceIte]
      exact .waiting hm hneeds ho (hlive hneeds ▸ hpos)
    · rename_i hnot
      have hinstances := hinstances hnot
      simp only [answerAtOnce, Broker.abandon, absorb, ho.present, hinstances, List.isEmpty_nil,
        ↓reduceIte, Option.some.injEq, kind_eq_ask]
      exact .answered hm rfl ho hinstances
  · have hm (e) : m.decode ≠ .ok (.event e) := fun he => hm ⟨e, he⟩
    obtain ⟨cause, hcreate⟩ := d.broker.createHead_of_malformed hm none
    unfold handleGate
    rw [hcreate]
    exact .malformed hm

namespace Offered

variable {x : Exchange γ Connections} {h : Head γ}

theorem coherent (ho : Offered d m e x h) (hb : d.broker.Coherent) : x.broker.Coherent :=
  offers_coherent ho.offers (hb.insertHead m e none)

theorem heads (ho : Offered d m e x h) {id : HeadId} (hne : id ≠ ⟨d.broker.nextId⟩) :
    x.broker.heads.get? id = d.broker.heads.get? id := by
  rw [offers_others ho.offers hne]
  refine (d.broker.get?_withHead m e id).trans ?_
  rw [if_neg hne]

theorem fresh (ho : Offered d m e x h) : d.broker.nextId < x.broker.nextId :=
  (offers_quiet ho.offers).nextId

theorem completions (ho : Offered d m e x h) : x.completions = [] :=
  (offers_quiet ho.offers).completions

theorem sent (ho : Offered d m e x h) {send : Send} (hs : send ∈ x.sends) :
    (∃ s uid, send.purpose = .event s ⟨d.broker.nextId⟩ ∧
      d.member s = some (uid, send.channel)) ∧ send.message = m := by
  rcases offers_sends ho.offers hs with hs | ⟨s, sess, h', hpurpose, hsess, hchannel, hh', hmessage⟩
  · exact absurd hs List.not_mem_nil
  · have hhead := (d.broker.get?_withHead m e ⟨d.broker.nextId⟩).symm.trans hh'
    rw [if_pos rfl] at hhead
    obtain rfl := Option.some.inj hhead
    refine ⟨⟨s, sess.uid, hpurpose, ?_⟩, hmessage⟩
    unfold member
    rw [show d.broker.sessions.get? s = some sess from hsess, hchannel]
    rfl

theorem plain (ho : Offered d m e x h) (hm : m.decode = .ok (.event e)) {send : Send}
    (hs : send ∈ x.sends) : send.Plain := by
  obtain ⟨⟨s, -, hpurpose, -⟩, hmessage⟩ := ho.sent hs
  constructor
  · intro s' id
    rw [hpurpose]
    exact Purpose.noConfusion
  · intro token you uid v
    rw [hmessage, hm]
    exact fun heq => Content.noConfusion (Except.ok.inj heq)

theorem log (ho : Offered d m e x h) : ((d.admitted m e).absorb x).log =
    { d.log with queued := d.log.queued ++ x.sends.filter (·.result.isOk) } := by
  rw [absorb_log, ho.completions, List.map_nil, List.append_nil]
  rfl

theorem linked (ho : Offered d m e x h) (hl : Linked d) {d' : Daemon γ}
    (hsessions : d'.broker.sessions = x.broker.sessions)
    (hconnections : d'.connections = x.transport) (hnext : d'.nextChannel = d.nextChannel) :
    Linked d' := by
  refine hl.congr (fun s => member_congr ?_) (fun channel => ?_) hnext
  · rw [hsessions, offers_profile ho.offers]
    rfl
  · unfold client
    rw [hconnections]
    exact carries_client ho.carries channel

end Offered

namespace Handled

variable {d' : Daemon γ} {rs : List (GateRequest γ)}

theorem coherent (hd : Handled d gate m d') (hb : d.broker.Coherent) : d'.broker.Coherent := by
  cases hd with
  | malformed => exact hb
  | waiting hm hask ho => exact (ho.coherent hb).setWaiter _ gate
  | answered hm hv ho hinstances => exact (ho.coherent hb).eraseHead ho.present hinstances

theorem running (hd : Handled d gate m d') : d'.running = d.running := by
  cases hd <;> rfl

theorem linked (hd : Handled d gate m d') (hl : Linked d) : Linked d' := by
  cases hd with
  | malformed => exact hl.congr (fun _ => rfl) (fun _ => rfl) rfl
  | waiting hm hask ho => exact ho.linked hl rfl rfl rfl
  | answered hm hv ho => exact ho.linked hl rfl rfl rfl

theorem ledger (hd : Handled d gate m d') (hb : d.broker.Coherent)
    (hl : Ledger rs [] d.broker d.log) (hgate : gate ∉ rs.map GateRequest.gate) :
    Ledger (rs ++ [⟨gate, m, d.headFor? m⟩]) [] d'.broker d'.log := by
  cases hd with
  | malformed hm =>
    rw [headFor?_of_malformed hm]
    have hlog : (d.giveVerdict gate .noDecision).log = { d.log with
        queued := d.log.queued ++ []
        verdicts := d.log.verdicts ++ [(gate, .noDecision)] } := by
      rw [List.append_nil]
      rfl
    rw [hlog]
    refine hl.enter_answered hgate (by simp) (Nat.le_refl _) (fun _ => rfl) ?_ (by simp)
    exact ⟨fun _ => rfl, fun he => absurd he (hm _)⟩
  | @waiting e x h hm hask ho hlive =>
    rw [headFor?_of_event hm]
    show Ledger _ _ _ ((d.admitted m e).absorb x).log
    rw [ho.log]
    have hawaits : GateRequest.Awaits ⟨gate, m, some ⟨d.broker.nextId⟩⟩ ⟨d.broker.nextId⟩
        { h with waiter := some gate } := by
      have hsubject := ho.subject
      simp only [Head.subject, Head.new, Prod.mk.injEq] at hsubject
      obtain ⟨hmessage, htoken, hkey, hkind, -⟩ := hsubject
      refine ⟨rfl, e, hm, hask, ?_⟩
      simp only [Head.subject, Head.new, hmessage, htoken, hkey, hkind]
    refine hl.enter_awaited hgate hawaits (Nat.le_refl _) ho.fresh (fun id => ?_) hlive
      fun send hs => ho.plain hm (List.mem_of_mem_filter hs)
    refine (Table.get?_modify_of_get? ho.present _ id).trans ?_
    split
    · rfl
    · rename_i hne
      exact ho.heads hne
  | @answered e x h v hm hv ho hinstances =>
    rw [headFor?_of_event hm]
    let dropped : Daemon γ := { (d.admitted m e).absorb x with
      broker := { x.broker with heads := x.broker.heads.erase ⟨d.broker.nextId⟩ } }
    have hlog : (dropped.giveVerdict gate v).log = { d.log with
        queued := d.log.queued ++ x.sends.filter (·.result.isOk)
        verdicts := d.log.verdicts ++ [(gate, v)] } := by
      show { ((d.admitted m e).absorb x).log with
        verdicts := ((d.admitted m e).absorb x).log.verdicts ++ [(gate, v)] } = _
      rw [ho.log]
    rw [hlog]
    refine hl.enter_answered hgate (fun id hid => ?_) (Nat.le_of_lt ho.fresh) (fun id => ?_)
      ⟨fun hmalformed => absurd hm (hmalformed e), fun he hnotice => ?_⟩
      fun send hs => ho.plain hm (List.mem_of_mem_filter hs)
    · obtain rfl := Option.some.inj hid
      exact ⟨Nat.le_refl _, ho.fresh⟩
    · refine (Table.get?_erase ..).trans ?_
      split
      · rename_i hid
        rw [hid, hb.head_fresh (Nat.le_refl _)]
      · rename_i hne
        exact ho.heads hne
    · rw [hm] at he
      cases he
      rw [hv, hnotice]
      rfl

end Handled

end Daemon

end Arbiter
