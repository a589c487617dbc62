import Arbiter.Proofs.Broker.Dossier
import Arbiter.Proofs.Broker.Memory
import Arbiter.Proofs.Broker.Results

/-!
What a session remembers, read off what was sent. The questions it took and the results it was told
make up its memory, whatever else was sent and whoever was lost. So an answer that comes late is
known for one as long as the result it comes after is among the latest.
-/

namespace Arbiter

/-- What a message was to a session that keeps its tokens in mind: a question that it took, or the
result of one. -/
def Send.mention? (s : SessionId) (send : Send) : Option Mention :=
  match send.purpose, send.message.decode with
  | .event s' _, .ok (.event e) =>
    if s' = s ∧ e.needsVerdict ∧ send.result.isOk then some (.asked e.token) else none
  | .outcome s' _, .ok (.outcome token _ _ _) => if s' = s then some (.told token) else none
  | _, _ => none

theorem Head.Describes.asks {ω : Type} {h : Head ω} {e : Event} (he : h.Describes e) :
    h.kind = .ask ↔ e.needsVerdict = true := by
  rw [he.kind]
  split <;> simp [*]

theorem Head.Describes.mention? {ω : Type} {h : Head ω} {e : Event} (he : h.Describes e)
    (s s' : SessionId) (id : HeadId) (channel : ChannelId) (result : Except SendRefusal Unit) :
    Send.mention? s ⟨.event s' id, channel, h.message, result⟩ =
      if s' = s ∧ h.kind = .ask ∧ result.isOk then some (.asked h.token) else none := by
  simp only [Send.mention?, he.decodes, he.asks, he.token]

namespace Exchange

variable {ω σ : Type} {t : Transport σ} {x y : Exchange ω σ} {id : HeadId} {s : SessionId}
  {capacity : Nat}

def mentions (s : SessionId) (sends : List Send) : List Mention :=
  sends.filterMap (Send.mention? s)

theorem mentions_append (s : SessionId) (sends sends' : List Send) :
    mentions s (sends ++ sends') = mentions s sends ++ mentions s sends' :=
  List.filterMap_append

theorem mentions_snoc (s : SessionId) (sends : List Send) (send : Send) :
    mentions s (sends ++ [send]) = mentions s sends ++ (send.mention? s).toList := by
  have hsingle : mentions s [send] = (send.mention? s).toList := by
    unfold mentions
    cases hmention : send.mention? s <;> simp [hmention]
  rw [mentions_append, hsingle]

def since (s : SessionId) (id : HeadId) (sends : List Send) : List Send :=
  (sends.dropWhile (·.purpose ≠ .outcome s id)).tail

structure Recollects (capacity : Nat) (x : Exchange ω σ) : Prop where
  coherent : x.broker.Coherent
  described : Described x.broker
  settledCapacity : x.broker.settledCapacity = capacity
  unheard {s : SessionId} : x.broker.nextId ≤ s.number → mentions s x.sends = []
  memoir {s : SessionId} {sess : Session} : x.broker.sessions.get? s = some sess →
    Memoir capacity (mentions s x.sends) sess.pending sess.settled

theorem recollects_start (capacity : Nat) (transport : σ) :
    Recollects capacity (start (.new capacity : Broker ω) transport) where
  coherent := Broker.coherent_new capacity
  described id h hh := by cases hh
  settledCapacity := rfl
  unheard _ := rfl
  memoir hs := by cases hs

namespace Recollects

theorem markLost (hx : Recollects capacity x) (s : SessionId) :
    Recollects capacity (x.withBroker (x.broker.markLost s)) where
  coherent := hx.coherent.modifySession s fun _ => rfl
  described := hx.described
  settledCapacity := hx.settledCapacity
  unheard := hx.unheard
  memoir {s' sess'} hs' := by
    have hsession : (x.broker.markLost s).sessions.get? s' =
        if s' = s then (x.broker.sessions.get? s').map fun sess => { sess with lost := true }
        else x.broker.sessions.get? s' := Table.get?_modify ..
    rw [withBroker, hsession] at hs'
    split at hs'
    · obtain ⟨sess, hs, rfl⟩ := Option.map_eq_some_iff.mp hs'
      have hmemoir := hx.memoir hs
      exact hmemoir
    · exact hx.memoir hs'

theorem send (hx : Recollects capacity x) {h : Head ω} (hh : x.broker.heads.get? id = some h)
    (channel : ChannelId)
    (hsilent : h.kind = .ask → (x.send t (.event s id) channel h.message).1.isOk = false) :
    Recollects capacity (x.send t (.event s id) channel h.message).2 := by
  have hmentions (s' : SessionId) :
      mentions s' (x.send t (.event s id) channel h.message).2.sends = mentions s' x.sends := by
    obtain ⟨e, he⟩ := hx.described id h hh
    have hnone : Send.mention? s' ⟨.event s id, channel, h.message,
        (x.send t (.event s id) channel h.message).1⟩ = none := by
      rw [he.mention?, if_neg]
      rintro ⟨-, hask, hok⟩
      rw [hsilent hask] at hok
      cases hok
    rw [send_sends, mentions_snoc, hnone, Option.toList_none, List.append_nil]
  exact {
    coherent := hx.coherent
    described := hx.described
    settledCapacity := hx.settledCapacity
    unheard := fun {s'} hs' => by
      rw [hmentions]
      exact hx.unheard hs'
    memoir := fun {s' sess'} hs' => by
      rw [hmentions]
      exact hx.memoir hs' }

theorem described_addInstance {b : Broker ω} (hd : Described b) (s : SessionId) (id : HeadId)
    (token : UInt64) : Described (b.addInstance s id token) := by
  intro id' h' hh'
  have hhead : (b.addInstance s id token).heads.get? id' = if id' = id then
      (b.heads.get? id').map fun h =>
        { h with instances := h.instances ++ [⟨b.nextId⟩], live := h.live + 1 }
      else b.heads.get? id' := Table.get?_modify ..
  rw [hhead] at hh'
  split at hh'
  · obtain ⟨h, hh, rfl⟩ := Option.map_eq_some_iff.mp hh'
    obtain ⟨e, he⟩ := hd id' h hh
    exact ⟨e, he.decodes, he.token, he.key, he.kind⟩
  · exact hd id' h' hh'

theorem queued (hx : Recollects capacity x) {sess : Session} {h : Head ω}
    (hs : x.broker.sessions.get? s = some sess) (hh : x.broker.heads.get? id = some h)
    (hkind : h.kind = .ask) (hfree : sess.pending.get? h.token = none)
    (hsend : (x.send t (.event s id) sess.channel h.message).1 = .ok ()) :
    Recollects capacity ((x.send t (.event s id) sess.channel h.message).2.withBroker
      (x.broker.addInstance s id h.token)) := by
  have hsends (s' : SessionId) :
      mentions s' (x.send t (.event s id) sess.channel h.message).2.sends =
        mentions s' x.sends ++ if s = s' then [.asked h.token] else [] := by
    obtain ⟨e, he⟩ := hx.described id h hh
    rw [send_sends, hsend, mentions_snoc, he.mention?]
    by_cases hs' : s = s' <;> simp [hs', hkind, Except.isOk, Except.toBool]
  have hsession := Broker.sessions_addInstance hs id h.token
  refine {
    coherent := hx.coherent.addInstance hs hh hkind hfree
    described := described_addInstance hx.described s id h.token
    settledCapacity := hx.settledCapacity
    unheard := fun {s'} hs' => ?unheard
    memoir := fun {s' sess'} hs' => ?memoir }
  case unheard =>
    have hfresh : x.broker.nextId ≤ s'.number := Nat.le_of_succ_le hs'
    have hother : s ≠ s' := by
      rintro rfl
      rw [hx.coherent.session_fresh hfresh] at hs
      cases hs
    refine (hsends s').trans ?_
    rw [hx.unheard hfresh, if_neg hother]
    rfl
  case memoir =>
    rw [withBroker, hsession] at hs'
    refine (hsends s').symm ▸ ?_
    split at hs'
    · subst s'
      cases hs'
      rw [if_pos rfl]
      exact .asked _ (hx.memoir hs) hfree
    · rename_i hother
      rw [if_neg (Ne.symm hother), List.append_nil]
      exact hx.memoir hs'

theorem dispatch (hx : Recollects capacity x) (s : SessionId) (id : HeadId) :
    Recollects capacity (x.dispatch t s id).2 := by
  have hspec := dispatch_spec t x s id
  generalize x.dispatch t s id = outcome at hspec ⊢
  obtain ⟨result, y⟩ := outcome
  cases hspec with
  | unknownSession | unknownHead | notInterested | duplicate => exact hx
  | refused _ hh _ hsend =>
    refine hx.send hh _ fun _ => ?_
    rw [hsend]
    rfl
  | sent _ hh _ hkind =>
    refine hx.send hh _ fun hask => ?_
    rw [hkind] at hask
    cases hask
  | queued hs hh _ hkind hfree hsend => exact hx.queued hs hh hkind hfree hsend

theorem dispatchAll (hx : Recollects capacity x) (id : HeadId) :
    Recollects capacity (x.dispatchAll t id).2 :=
  dispatchAll_induction hx (fun s hy => hy.dispatch s id) fun s hy => hy.markLost s

end Recollects

theorem Broadcast.told_cases {h : Head ω} {new : List Send} (hx : Broadcast id h x y new)
    (hb : x.broker.Coherent) (hh : x.broker.heads.get? id = some h) (s : SessionId) :
    resultsFor s id new = [] ∨ ∃ i send, x.broker.awaited? s h.token = some i ∧
      resultsFor s id new = [send] := by
  by_cases hheld : ∃ i ∈ h.instances, ∃ inst, x.broker.instances.get? i = some inst ∧
      inst.session = s
  · obtain ⟨i, hmem, inst, hi, rfl⟩ := hheld
    have howed := Owed.of_row hb hh (Table.mem_rows.mpr ⟨hmem, hi⟩)
    obtain ⟨send, hone, -⟩ := hx.resultsFor_of_mem hb hh hi hmem
    have hawaited := hb.awaited?_of_instance hi
    rw [howed.token] at hawaited
    exact .inr ⟨i, send, hawaited, hone⟩
  · refine .inl (hx.resultsFor_of_forall hb hh fun i hmem inst hi hsession => hheld ?_)
    exact ⟨i, hmem, inst, hi, hsession⟩

theorem Broadcast.mentions {h : Head ω} {new : List Send} (hx : Broadcast id h x y new)
    (hb : x.broker.Coherent) (hh : x.broker.heads.get? id = some h) (s : SessionId) :
    Exchange.mentions s new = (resultsFor s id new).map fun _ => .told h.token := by
  rw [Exchange.mentions, resultsFor, ← List.filterMap_eq_map, List.filterMap_filter]
  refine List.filterMap_congr fun send hsend => ?_
  obtain ⟨p, howed, htells⟩ := hx.owed hb hh hsend
  have hmessage := htells.message
  rw [howed.token] at hmessage
  rw [Send.mention?, htells.purpose, Message.decode_outcome hmessage, howed.head]
  simp only [Purpose.outcome.injEq, and_true, decide_eq_true_eq, Function.comp_apply]

namespace Recollects

theorem broadcast (hx : Recollects capacity x) {h : Head ω} {new : List Send}
    (hspec : Broadcast id h x y new) (hh : x.broker.heads.get? id = some h) :
    Recollects capacity y := by
  have hsends (s : SessionId) : mentions s y.sends =
      mentions s x.sends ++ (resultsFor s id new).map fun _ => .told h.token := by
    rw [hspec.sends, mentions_append, hspec.mentions hx.coherent hh]
  refine {
    coherent := hspec.coherent hx.coherent hh
    described := hspec.described hx.described
    settledCapacity := hspec.settledCapacity.trans hx.settledCapacity
    unheard := fun {s} hs => ?unheard
    memoir := fun {s sess'} hs' => ?memoir }
  case unheard =>
    rw [hspec.nextId] at hs
    have hclosed := hx.coherent.session_fresh hs
    rw [hsends, hx.unheard hs]
    rcases hspec.told_cases hx.coherent hh s with hnone | ⟨i, send, hawaited, -⟩
    · rw [hnone]
      rfl
    · rw [Broker.awaited?, hclosed] at hawaited
      cases hawaited
  case memoir =>
    rw [hspec.sessions] at hs'
    obtain ⟨sess, hs, rfl⟩ := Option.map_eq_some_iff.mp hs'
    rw [hsends]
    rcases hspec.told_cases hx.coherent hh s with hnone | ⟨i, send, hawaited, hone⟩
    · rw [hnone, List.map_nil, List.append_nil]
      exact hx.memoir hs
    · rw [Broker.awaited?, hs] at hawaited
      rw [hone]
      exact .told (hx.memoir hs) hawaited

theorem effect (hx : Recollects capacity x) {op : Operation ω} {r : Response} {ids : List HeadId}
    (he : Effect t x op r y ids)
    (hop : ∀ id', op ≠ .dispatchAll id' ∧ ∀ s, op ≠ .dispatch s id') : Recollects capacity y := by
  have hkept : y.sends = x.sends ∧ y.broker.settledCapacity = x.broker.settledCapacity := by
    cases he with
    | offered _ hoffered =>
      rcases hoffered with rfl | ⟨s, rfl⟩
      · exact absurd rfl (hop _).1
      · exact absurd rfl ((hop _).2 s)
    | tornDown hs => exact ⟨rfl, (closing_spec hx.coherent hs).1.settledCapacity⟩
    | _ => exact ⟨rfl, rfl⟩
  obtain ⟨hsends, hcapacity⟩ := hkept
  have hnext := (he.quiet hx.coherent).nextId
  refine {
    coherent := he.coherent hx.coherent
    described := he.described hx.coherent hx.described
    settledCapacity := hcapacity.trans hx.settledCapacity
    unheard := fun hs => ?unheard
    memoir := fun {s sess'} hs' => ?memoir }
  case unheard =>
    rw [hsends]
    exact hx.unheard (Nat.le_trans hnext hs)
  case memoir =>
    rw [hsends]
    rcases he.session_cases hx.coherent hop hs' with ⟨rfl, uid, channel, rfl⟩ | ⟨sess, _, hs, rfl⟩
    · rw [hx.unheard (Nat.le_refl _), hx.settledCapacity]
      exact .opened
    · have hmemoir := hx.memoir hs
      exact hmemoir

theorem perform (hx : Recollects capacity x) (op : Operation ω) :
    Recollects capacity (x.perform t op).2 := by
  cases op with
  | dispatch s id => exact hx.dispatch s id
  | dispatchAll id => exact hx.dispatchAll id
  | _ =>
    exact perform_induction (P := Recollects capacity) hx.coherent _
      (fun he => hx.effect he fun _ => ⟨nofun, nofun⟩) fun _ hh hspec hy => hy.broadcast hspec hh

end Recollects

theorem recollects_run (t : Transport σ) (capacity : Nat) (transport : σ)
    (ops : List (Operation ω)) :
    Recollects capacity (run t (start (.new capacity) transport) ops).2 :=
  run_induction (I := fun _ x => Recollects capacity x) (recollects_start capacity transport)
    (fun op hx => hx.perform op) ops

/-- What was held before a step and what was resolved by it, as the history has it. -/
structure Traced (past : List (Step ω σ)) (x : Exchange ω σ) : Prop where
  chronicle : Chronicle past x
  held {step : Step ω σ} {i : InstanceId} {inst : Instance} : step ∈ past →
    step.before.broker.instances.get? i = some inst →
    ∃ step' ∈ past, step'.after.broker.instances.get? i = some inst
  resolved {step : Step ω σ} {id : HeadId} : step ∈ past → id ∈ step.after.resolved →
    id ∈ x.resolved

theorem traced_run (t : Transport σ) (capacity : Nat) (transport : σ) (ops : List (Operation ω)) :
    Traced (history t (start (.new capacity) transport) ops)
      (run t (start (.new capacity) transport) ops).2 := by
  have hstart : Traced [] (start (.new capacity : Broker ω) transport) :=
    ⟨chronicle_start capacity transport, fun hstep => absurd hstep List.not_mem_nil,
      fun hstep => absurd hstep List.not_mem_nil⟩
  refine run_induction hstart (fun {past x} op h => ⟨h.chronicle.perform op, ?_, ?_⟩) ops
  · intro step i inst hstep hi
    have hpast : ∃ step' ∈ past, step'.after.broker.instances.get? i = some inst := by
      rcases List.mem_append.mp hstep with hstep | hstep
      · exact h.held hstep hi
      · rw [List.mem_singleton.mp hstep] at hi
        exact h.chronicle.seen hi
    obtain ⟨step', hstep', hi'⟩ := hpast
    exact ⟨step', List.mem_append_left _ hstep', hi'⟩
  · intro step id hstep hid
    rcases List.mem_append.mp hstep with hstep | hstep
    · exact resolved_perform h.chronicle.coherent op (h.resolved hstep hid)
    · rw [List.mem_singleton.mp hstep] at hid
      exact hid

theorem Chronicle.told {past : List (Step ω σ)} (h : Chronicle past x) {step : Step ω σ}
    {i : InstanceId} {inst : Instance} {sess : Session} (hstep : step ∈ past)
    (hi : step.after.broker.instances.get? i = some inst) (hresolved : inst.head ∈ x.resolved)
    (hs : x.broker.sessions.get? inst.session = some sess) :
    ∃ earlier, mentions inst.session x.sends = earlier ++ .told inst.token ::
      mentions inst.session (since inst.session inst.head x.sends) := by
  obtain ⟨hfate, -⟩ := h.fate hstep hi
  cases hfate with
  | pending hpending hcopy =>
    obtain ⟨-, -, hhead⟩ := Instance.copy_eq.mp hcopy
    exact absurd hresolved (hhead ▸ h.docket.unresolved h.coherent hpending)
  | torn htorn =>
    rw [(h.roll.attendance inst.session).absent_of_torn htorn.torn] at hs
    cases hs
  | @told send _ _ hone hdue =>
    obtain ⟨earlier, later, hsplit, hearlier, hsend, -⟩ := List.filter_eq_cons_iff.mp hone
    have hpurpose : send.purpose = .outcome inst.session inst.head := of_decide_eq_true hsend
    have hsince : since inst.session inst.head x.sends = later := by
      have hbefore : ∀ a ∈ earlier,
          decide (a.purpose ≠ .outcome inst.session inst.head) = true := fun a ha =>
        decide_eq_true fun heq => hearlier a ha (decide_eq_true heq)
      rw [since, hsplit, List.dropWhile_append_of_pos hbefore, List.dropWhile_cons_of_neg]
      · rfl
      · simp [hpurpose]
    have hmention : send.mention? inst.session = some (.told inst.token) := by
      rw [Send.mention?, hpurpose, Message.decode_outcome hdue.message]
      exact if_pos rfl
    refine ⟨mentions inst.session earlier, ?_⟩
    rw [hsince, hsplit, mentions_append]
    exact congrArg _ (List.filterMap_cons_some hmention)

/-- What a broker makes of answers for which nothing waits. -/
structure LateAnswers (t : Transport σ) (capacity : Nat) (past : List (Step ω σ))
    (x : Exchange ω σ) : Prop where
  /-- The session held an instance of a head that was then resolved, is still open, and since it was
  told was neither asked under the token anew nor told of too many others. -/
  duplicate {step : Step ω σ} {s : SessionId} {id : HeadId} {i : InstanceId} {inst : Instance}
    {sess : Session} : step ∈ past → step.before.broker.Holds s id i inst →
    id ∉ step.before.resolved → id ∈ step.after.resolved →
    x.broker.sessions.get? s = some sess →
    .asked inst.token ∉ mentions s (since s id x.sends) →
    (mentions s (since s id x.sends)).countP Mention.isTold < capacity →
    ∀ verdict delegate, x.perform t (.answer s inst.token verdict delegate) =
      (.answered .duplicate, x)
  unknown {s : SessionId} {sess : Session} {token : UInt64} :
    x.broker.sessions.get? s = some sess → .asked token ∉ mentions s x.sends →
    ∀ verdict delegate, x.perform t (.answer s token verdict delegate) =
      (.refused (.unknownToken token), x)
  remembered {s : SessionId} {sess : Session} : x.broker.sessions.get? s = some sess →
    sess.settled.capacity = capacity ∧ sess.settled.Sound

theorem perform_answer_of_free {sess : Session} {token : UInt64}
    (hs : x.broker.sessions.get? s = some sess) (hfree : sess.pending.get? token = none)
    (verdict : Verdict) (delegate : Bool) :
    x.perform t (.answer s token verdict delegate) =
      (if sess.settled.contains token then .answered .duplicate
        else .refused (.unknownToken token), x) := by
  simp only [perform, answer, hs]
  rw [hfree]
  cases sess.settled.contains token <;> rfl

theorem lateAnswers_run (t : Transport σ) (capacity : Nat) (transport : σ)
    (ops : List (Operation ω)) :
    LateAnswers t capacity (history t (start (.new capacity) transport) ops)
      (run t (start (.new capacity) transport) ops).2 where
  duplicate {step s id i inst sess} hstep hheld _ hafter hs hfresh hfew verdict delegate := by
    have htraced := traced_run t capacity transport ops
    obtain ⟨hi, rfl, rfl⟩ := hheld
    obtain ⟨step', hstep', hi'⟩ := htraced.held hstep hi
    have hresolved := htraced.resolved hstep hafter
    obtain ⟨earlier, hlog⟩ := htraced.chronicle.told hstep' hi' hresolved hs
    have hmemoir := (recollects_run t capacity transport ops).memoir hs
    obtain ⟨hfree, hcontains⟩ := hmemoir.late hlog hfresh hfew
    rw [perform_answer_of_free hs hfree, hcontains]
    rfl
  unknown {s sess token} hs hnever verdict delegate := by
    have hmemoir := (recollects_run t capacity transport ops).memoir hs
    have hfree : sess.pending.get? token = none := by
      by_contra hwaits
      exact hnever (hmemoir.mem_asked (.inl hwaits))
    have hunknown : sess.settled.contains token = false := by
      rw [Bool.eq_false_iff]
      exact fun hsettled => hnever (hmemoir.mem_asked (.inr hsettled))
    rw [perform_answer_of_free hs hfree, hunknown]
    rfl
  remembered hs :=
    have hmemoir := (recollects_run t capacity transport ops).memoir hs
    ⟨hmemoir.capacity_eq, hmemoir.sound⟩

-- With room for one token, the second to be settled takes the place of the first.
example :
    let ask (token : UInt8) : Message := .ofBytes ([0, 0, 0, 64, 0, 0, 32, 3, 0, 0, 0, 0, 0, 0, 0,
      token, 0, 0, 0, 0, 0, 0, 0, 5] ++ List.replicate 40 0)
    let after := (run ⟨fun _ _ _ => (.ok (), ())⟩ (start (.new 1) ())
      [.openSession 0 ⟨1⟩, .register ⟨1⟩ ⟨5, 0, 0⟩, .createHead (ask 7) (some "gate"),
        .dispatchAll ⟨2⟩, .answer ⟨1⟩ 7 .allow false, .createHead (ask 8) (some "gate"),
        .dispatchAll ⟨4⟩, .answer ⟨1⟩ 8 .allow false]).2
    (after.broker.sessions.get? ⟨1⟩).map (fun sess =>
      (sess.settled.order, sess.settled.contains 7, sess.settled.contains 8)) =
        some ([8], false, true) := by
  decide +kernel

end Exchange

end Arbiter
