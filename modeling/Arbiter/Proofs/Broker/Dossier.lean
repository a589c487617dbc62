import Arbiter.Proofs.Broker.Continuity

/-!
One event by itself. A dossier is all that the tables say of a head, told without the ids of its
instances: each is named by the session that holds it. What an operation does to a head it does to
the dossier of the head, and the dossier says what the broker will answer and send.
-/

namespace Arbiter

/-- A session's place with an event: whether it answered, and whether its answer is the one
recorded. -/
structure Seat where
  session : SessionId
  answered : Bool
  decides : Bool
deriving DecidableEq

structure Dossier (ω : Type) where
  message : Message
  token : UInt64
  key : Filter
  kind : EventKind
  waiter : Option ω
  verdict : Option Verdict
  decider : Option UInt32
  live : Nat
  seats : List Seat

namespace Dossier

variable {ω : Type}

def outcome (d : Dossier ω) : Verdict := d.verdict.getD .noDecision

def seated (d : Dossier ω) (s : SessionId) : Bool := d.seats.any (·.session = s)

def answered (d : Dossier ω) (s : SessionId) : Bool :=
  d.seats.any fun seat => seat.session = s && seat.answered

def sit (d : Dossier ω) (s : SessionId) : Dossier ω :=
  { d with live := d.live + 1, seats := d.seats ++ [⟨s, false, false⟩] }

def record (d : Dossier ω) (s : SessionId) (uid : UInt32) (verdict : Verdict) : Dossier ω :=
  { d with
    live := if d.answered s then d.live else d.live - 1
    verdict := some verdict
    decider := some uid
    seats := d.seats.map fun seat =>
      if seat.session = s then ⟨s, true, true⟩ else { seat with decides := false } }

def leave (d : Dossier ω) (s : SessionId) : Dossier ω :=
  if d.seated s then
    let rest := { d with seats := d.seats.filter (·.session ≠ s) }
    if d.answered s then rest
    else { rest with
      live := d.live - 1
      verdict := if d.live - 1 = 0 then some d.outcome else d.verdict }
  else d

def results (d : Dossier ω) (channel? : SessionId → Option ChannelId) :
    List (ChannelId × Message) :=
  d.seats.filterMap fun seat => (channel? seat.session).bind fun channel =>
    (Message.outcome d.token seat.decides (d.decider.getD 0) d.outcome).toOption.map (channel, ·)

def completion (d : Dossier ω) (id : HeadId) : List (Completion ω) :=
  d.waiter.toList.map fun w => ⟨w, id, d.message, d.outcome, d.decider, d.seats.length⟩

end Dossier

def Table.belongs (t : Table InstanceId Instance) (s : SessionId) (i : InstanceId) : Bool :=
  (t.get? i).any (·.session = s)

theorem Table.belongs_eq {t : Table InstanceId Instance} {i : InstanceId} {inst : Instance}
    (hi : t.get? i = some inst) (s : SessionId) : t.belongs s i = decide (inst.session = s) := by
  rw [belongs, hi, Option.any_some]

section Rows

variable {κ α : Type} [DecidableEq κ] {t t' : Table κ α} {ks : List κ}

theorem Table.rows_append (ks' : List κ) : t.rows (ks ++ ks') = t.rows ks ++ t.rows ks' :=
  List.filterMap_append

theorem Table.rows_congr (h : ∀ k ∈ ks, t'.get? k = t.get? k) : t'.rows ks = t.rows ks :=
  List.filterMap_congr fun k hk => by rw [h k hk]

theorem Table.rows_modify (t : Table κ α) (k : κ) (f : α → α) (ks : List κ) :
    (t.modify k f).rows ks = (t.rows ks).map fun e => if e.1 = k then (e.1, f e.2) else e := by
  rw [rows, rows, List.map_filterMap]
  refine List.filterMap_congr fun k' _ => ?_
  rw [get?_modify]
  cases t.get? k' with
  | none => simp
  | some a => by_cases hk : k' = k <;> simp [hk]

end Rows

section Dossiers

variable {ω : Type} {b b' : Broker ω} {id : HeadId} {h : Head ω} {s : SessionId}

def Head.dossier (h : Head ω) (instances : Table InstanceId Instance) : Dossier ω :=
  ⟨h.message, h.token, h.key, h.kind, h.waiter, h.verdict, h.decider.map Decider.uid, h.live,
    (instances.rows h.instances).map fun p => ⟨p.2.session, p.2.verdictReceived, h.decidedBy p.1⟩⟩

section Dossier

variable (h : Head ω) (instances : Table InstanceId Instance)

@[simp] theorem Head.dossier_key : (h.dossier instances).key = h.key := rfl

@[simp] theorem Head.dossier_kind : (h.dossier instances).kind = h.kind := rfl

end Dossier

namespace Broker

def dossier? (b : Broker ω) (id : HeadId) : Option (Dossier ω) :=
  (b.heads.get? id).map fun h => h.dossier b.instances

def Holds (b : Broker ω) (s : SessionId) (id : HeadId) (i : InstanceId) (inst : Instance) : Prop :=
  b.instances.get? i = some inst ∧ inst.session = s ∧ inst.head = id

theorem dossier?_congr (hheads : b'.heads.get? id = b.heads.get? id)
    (hinstances : ∀ h, b.heads.get? id = some h → ∀ i ∈ h.instances,
      b'.instances.get? i = b.instances.get? i) : b'.dossier? id = b.dossier? id := by
  rw [dossier?, dossier?, hheads]
  cases hh : b.heads.get? id with
  | none => rfl
  | some h =>
    rw [Option.map_some, Option.map_some, Head.dossier, Table.rows_congr (hinstances h hh)]
    rfl

namespace Coherent

theorem holds_of_mem (hb : b.Coherent) (hh : b.heads.get? id = some h)
    {p : InstanceId × Instance} (hp : p ∈ b.instances.rows h.instances) :
    b.Holds p.2.session id p.1 p.2 := by
  have howed := Exchange.Owed.of_row hb hh hp
  exact ⟨howed.present, rfl, howed.head⟩

theorem mem_of_holds (hb : b.Coherent) (hh : b.heads.get? id = some h) {i : InstanceId}
    {inst : Instance} (hi : b.Holds s id i inst) : (i, inst) ∈ b.instances.rows h.instances := by
  obtain ⟨hget, -, rfl⟩ := hi
  obtain ⟨h', hh', -, -, hmem⟩ := hb.listed hget
  obtain rfl : h = h' := Option.some.inj (hh.symm.trans hh')
  exact Table.mem_rows.mpr ⟨hmem, hget⟩

theorem holds_unique (hb : b.Coherent) {i j : InstanceId} {inst inst' : Instance}
    (hi : b.Holds s id i inst) (hj : b.Holds s id j inst') : i = j ∧ inst = inst' := by
  obtain ⟨hi, hsession, hhead⟩ := hi
  obtain ⟨hj, hsession', hhead'⟩ := hj
  obtain rfl := hb.instance_unique hi hj (hhead.trans hhead'.symm) (hsession.trans hsession'.symm)
  exact ⟨rfl, Option.some.inj (hi.symm.trans hj)⟩

theorem filter_belongs_eq_erase (hb : b.Coherent) (hh : b.heads.get? id = some h)
    {i : InstanceId} {inst : Instance} (hi : b.Holds s id i inst) :
    h.instances.filter (!b.instances.belongs s ·) = h.instances.erase i := by
  rw [(hb.tallies hh).nodup.erase_eq_filter]
  refine List.filter_congr fun j hj => ?_
  obtain ⟨inst', hget, hhead⟩ := (hb.tallies hh).member hj
  rw [Table.belongs_eq hget]
  by_cases hji : j = i
  · subst j
    obtain rfl : inst = inst' := Option.some.inj (hi.1.symm.trans hget)
    simp [hi.2.1]
  · have hother : inst'.session ≠ s := fun hsession =>
      hji (hb.holds_unique ⟨hget, hsession, hhead⟩ hi).1
    simp [hji, hother]

theorem seated_iff (hb : b.Coherent) (hh : b.heads.get? id = some h) :
    (h.dossier b.instances).seated s = true ↔ ∃ i inst, b.Holds s id i inst := by
  simp only [Dossier.seated, Head.dossier, List.any_map, List.any_eq_true, Function.comp_apply,
    decide_eq_true_eq]
  constructor
  · rintro ⟨p, hp, rfl⟩
    exact ⟨p.1, p.2, hb.holds_of_mem hh hp⟩
  · rintro ⟨i, inst, hi⟩
    exact ⟨(i, inst), hb.mem_of_holds hh hi, hi.2.1⟩

theorem answered_of_holds (hb : b.Coherent) (hh : b.heads.get? id = some h) {i : InstanceId}
    {inst : Instance} (hi : b.Holds s id i inst) :
    (h.dossier b.instances).answered s = inst.verdictReceived := by
  rw [Bool.eq_iff_iff]
  simp only [Dossier.answered, Head.dossier, List.any_map, List.any_eq_true, Function.comp_apply,
    Bool.and_eq_true, decide_eq_true_eq]
  constructor
  · rintro ⟨p, hp, rfl, hanswered⟩
    obtain ⟨-, rfl⟩ := hb.holds_unique hi (hb.holds_of_mem hh hp)
    exact hanswered
  · intro hanswered
    exact ⟨(i, inst), hb.mem_of_holds hh hi, hi.2.1, hanswered⟩

end Coherent

theorem dossier?_setWaiter (b : Broker ω) (id : HeadId) (waiter : ω) :
    (b.modifyHead id fun h => { h with waiter := some waiter }).dossier? id =
      (b.dossier? id).map fun d => { d with waiter := some waiter } := by
  simp only [dossier?, modifyHead, Table.get?_modify, ↓reduceIte, Option.map_map]
  rfl

theorem dossier?_addInstance (hb : b.Coherent) (hh : b.heads.get? id = some h) (s : SessionId)
    (hdecider : ∀ d, h.decider = some d → d.inst.number < b.nextId) :
    (b.addInstance s id h.token).dossier? id = (b.dossier? id).map (·.sit s) := by
  have hold (i) (hi : i ∈ h.instances) :
      (b.addInstance s id h.token).instances.get? i = b.instances.get? i := by
    obtain ⟨inst, hget, -⟩ := (hb.tallies hh).member hi
    refine (instances_addInstance ..).trans (if_neg ?_)
    rintro rfl
    rw [hb.instance_fresh (Nat.le_refl _)] at hget
    cases hget
  have hnew : (b.addInstance s id h.token).instances.rows [⟨b.nextId⟩] =
      [(⟨b.nextId⟩, .new h.token s id)] := by
    simp [addInstance, Table.rows, Table.get?_insert]
  -- A decider was there before, so the new instance is not it.
  have hundecided : h.decider.any (·.inst = ⟨b.nextId⟩) = false := by
    rw [Option.any_eq_false]
    intro d hd
    rw [decide_eq_false_iff_not]
    intro heq
    have hlt := hdecider d hd
    rw [heq] at hlt
    exact Nat.lt_irrefl _ hlt
  rw [dossier?, dossier?, heads_addInstance hh, if_pos rfl, hh, Option.map_some, Option.map_some,
    Option.map_some]
  simp only [Head.dossier, Dossier.sit, Table.rows_append, Table.rows_congr hold, hnew,
    List.map_append, List.map_cons, List.map_nil, Instance.new, Head.decidedBy, hundecided]

theorem live_recordVerdict (hb : b.Coherent) {i : InstanceId} {inst : Instance}
    (hi : b.Holds s id i inst) (hh : b.heads.get? id = some h) (verdict : Verdict) (uid : UInt32) :
    (Exchange.recordVerdict h (!inst.verdictReceived) verdict ⟨i, uid⟩).live =
      ((h.dossier b.instances).record s uid verdict).live := by
  rw [Dossier.record, hb.answered_of_holds hh hi, Exchange.recordVerdict]
  cases inst.verdictReceived <;> rfl

theorem seats_giveVerdict (hb : b.Coherent) {i : InstanceId} {inst : Instance}
    (hi : b.Holds s id i inst) (hh : b.heads.get? id = some h) :
    (((b.instances.rows h.instances).map fun p =>
        if p.1 = i then (p.1, p.2.giveVerdict) else p).map fun p =>
      (⟨p.2.session, p.2.verdictReceived, decide (i = p.1)⟩ : Seat)) =
      (h.dossier b.instances).seats.map fun seat =>
        if seat.session = s then ⟨s, true, true⟩ else { seat with decides := false } := by
  rw [Head.dossier, List.map_map, List.map_map]
  refine List.map_congr_left fun p hp => ?_
  have hheld := hb.holds_of_mem hh hp
  by_cases hsession : p.2.session = s
  · obtain ⟨rfl, rfl⟩ := hb.holds_unique hi (hsession ▸ hheld)
    simp [Instance.giveVerdict, hsession]
  · have hne : p.1 ≠ i := by
      rintro rfl
      obtain rfl : p.2 = inst := Option.some.inj (hheld.1.symm.trans hi.1)
      exact hsession hi.2.1
    simp [hsession, hne, hne.symm]

theorem dossier?_recordAnswer (hb : b.Coherent) {i : InstanceId} {inst : Instance}
    (hi : b.Holds s id i inst) (hh : b.heads.get? id = some h) (verdict : Verdict) (uid : UInt32) :
    (b.recordAnswer i inst h verdict uid).dossier? id =
      (b.dossier? id).map (·.record s uid verdict) := by
  have hhead : (b.recordAnswer i inst h verdict uid).heads.get? id =
      some (Exchange.recordVerdict h (!inst.verdictReceived) verdict ⟨i, uid⟩) := by
    obtain ⟨-, -, rfl⟩ := hi
    exact (heads_recordAnswer hh ..).trans (if_pos rfl)
  have hrows : (b.recordAnswer i inst h verdict uid).instances.rows h.instances =
      (b.instances.rows h.instances).map fun p =>
        if p.1 = i then (p.1, p.2.giveVerdict) else p :=
    Table.rows_modify ..
  rw [dossier?, dossier?, hhead, hh, Option.map_some, Option.map_some, Option.map_some,
    Dossier.record, ← seats_giveVerdict hb hi hh, Head.dossier,
    live_recordVerdict hb hi hh verdict uid]
  simp only [Exchange.recordVerdict, hrows]
  rfl

section Closing

variable {ready : List HeadId}

theorem head_closed (hc : Exchange.Closed s b b' ready) (hh : b.heads.get? id = some h)
    {i : InstanceId} {inst : Instance} (hi : b.Holds s id i inst) :
    b'.heads.get? id = some (Exchange.withdrawInstance h i inst.verdictReceived) := by
  obtain ⟨hget, hsession, rfl⟩ := hi
  exact hc.touched hget hsession hh

theorem rows_closed (hc : Exchange.Closed s b b' ready) (ids : List InstanceId) :
    b'.instances.rows (ids.filter (!b.instances.belongs s ·)) =
      (b.instances.rows ids).filter (·.2.session ≠ s) := by
  rw [Table.rows, Table.rows, List.filterMap_filter, List.filter_filterMap]
  refine List.filterMap_congr fun i _ => ?_
  rw [hc.instances, Table.belongs]
  cases b.instances.get? i with
  | none => simp
  | some inst => by_cases hsession : inst.session = s <;> simp [hsession, Option.filter_some]

theorem dossier?_closing (hb : b.Coherent) (hc : Exchange.Closed s b b' ready) (id : HeadId) :
    b'.dossier? id = (b.dossier? id).map (·.leave s) := by
  cases hh : b.heads.get? id with
  | none =>
    have hgone : b'.heads.get? id = none := by
      cases hh' : b'.heads.get? id with
      | none => rfl
      | some h' =>
        obtain ⟨h, hsome, -⟩ := hc.head_cases hb hh'
        rw [hh] at hsome
        cases hsome
    rw [dossier?, dossier?, hh, hgone]
    rfl
  | some h =>
    by_cases hheld : ∃ i inst, b.Holds s id i inst
    · have hseated := (hb.seated_iff hh).mpr hheld
      obtain ⟨i, inst, hi⟩ := hheld
      have hanswered := hb.answered_of_holds hh hi
      have hhead := head_closed hc hh hi
      have hseats : (b'.instances.rows (h.instances.erase i)).map
          (fun p => (⟨p.2.session, p.2.verdictReceived, h.decidedBy p.1⟩ : Seat)) =
            (h.dossier b.instances).seats.filter (·.session ≠ s) := by
        rw [← hb.filter_belongs_eq_erase hh hi, rows_closed hc, Head.dossier, List.filter_map]
        rfl
      rw [dossier?, dossier?, hhead, hh, Option.map_some, Option.map_some, Option.map_some,
        Dossier.leave, if_pos hseated, hanswered, ← hseats, Head.dossier,
        Exchange.withdrawInstance_instances]
      cases inst.verdictReceived <;> rfl
    · have hunseated : (h.dossier b.instances).seated s = false :=
        Bool.eq_false_iff.mpr fun hseated => hheld ((hb.seated_iff hh).mp hseated)
      have hsame : b'.dossier? id = b.dossier? id := by
        refine dossier?_congr ?_ fun h' hh' i hi => ?_
        · exact hc.untouched fun i inst hi hsession hhead => hheld ⟨i, inst, hi, hsession, hhead⟩
        · obtain rfl : h = h' := Option.some.inj (hh.symm.trans hh')
          obtain ⟨inst, hget, hhead⟩ := (hb.tallies hh).member hi
          have hother : inst.session ≠ s := fun hsession => hheld ⟨i, inst, hget, hsession, hhead⟩
          rw [hc.instances, hget, Option.filter_some, if_pos (by simpa using hother)]
      rw [hsame, dossier?, hh, Option.map_some, Option.map_some, Dossier.leave,
        if_neg (by simp [hunseated])]

theorem mem_ready_iff (hb : b.Coherent) (hc : Exchange.Closed s b b' ready) :
    id ∈ ready ↔ ∃ d, b.dossier? id = some d ∧ d.seated s = true ∧ (d.leave s).live = 0 := by
  rw [hc.ready]
  cases hh : b.heads.get? id with
  | none =>
    rw [dossier?, hh]
    refine iff_of_false ?_ (by simp)
    rintro ⟨⟨i, inst, hi, -, rfl⟩, -⟩
    obtain ⟨h, hh', -⟩ := hb.listed hi
    rw [hh] at hh'
    cases hh'
  | some h =>
    have hleft := dossier?_closing hb hc id
    rw [dossier?, dossier?, hh, Option.map_some, Option.map_some, Option.map_eq_some_iff] at hleft
    obtain ⟨h', hh', hdossier⟩ := hleft
    have hlive : h'.live = ((h.dossier b.instances).leave s).live :=
      congrArg Dossier.live hdossier
    rw [dossier?, hh, Option.map_some, hh']
    simp only [Option.some.injEq, exists_eq_left', hb.seated_iff hh, hlive]
    rfl

end Closing

end Broker

namespace Exchange

variable {σ : Type} {x x' : Exchange ω σ} {new : List Send}

theorem filterMap_of_forall₂ {α β γ : Type} {R : α → β → Prop} {f : α → Option γ} {g : β → γ}
    (hR : ∀ a b, R a b → f a = some (g b)) {as : List α} {bs : List β} (h : List.Forall₂ R as bs) :
    as.filterMap f = bs.map g := by
  induction h with
  | nil => rfl
  | cons hab _ ih => rw [List.filterMap_cons, hR _ _ hab, ih, List.map_cons]

theorem Broadcast.results (hx : Broadcast id h x x' new) (hb : x.broker.Coherent)
    (hh : x.broker.heads.get? id = some h) :
    new.map (fun send => (send.channel, send.message)) =
      (h.dossier x.broker.instances).results fun s =>
        (x.broker.sessions.get? s).map Session.channel := by
  have htold : List.Forall₂ (fun p send => Owed x.broker id h p ∧ Tells x.broker h p send)
      (x.broker.instances.rows h.instances) new :=
    (List.forall₂_and_left _ _).mpr ⟨fun _ hp => Owed.of_row hb hh hp, hx.told⟩
  rw [Dossier.results, Head.dossier, List.filterMap_map]
  refine (filterMap_of_forall₂ ?_ htold).symm
  rintro p send ⟨howed, htells⟩
  obtain ⟨sess, hs, hchannel⟩ := htells.channel
  have hmessage := htells.message
  rw [howed.token] at hmessage
  have hwritten : Message.outcome h.token (h.decidedBy p.1) ((h.decider.map Decider.uid).getD 0)
      (h.verdict.getD .noDecision) = .ok send.message := hmessage
  simp only [Function.comp_apply, hs, Option.map_some, Option.bind_some, Dossier.outcome, hwritten,
    Except.toOption, hchannel]

theorem Broadcast.completion (hx : Broadcast id h x x' new)
    (hok : ∀ send ∈ new, send.result = .ok ()) :
    x'.completions = x.completions ++ (h.dossier x.broker.instances).completion id := by
  have hcount : new.countP (·.result.isOk) = (x.broker.instances.rows h.instances).length := by
    rw [hx.told.length_eq, List.countP_eq_length]
    intro send hsend
    rw [hok send hsend]
    rfl
  rw [hx.completions, hcount, Dossier.completion, Head.dossier, List.length_map]
  rfl

end Exchange

end Dossiers

end Arbiter
