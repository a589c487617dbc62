import Mathlib.Data.List.Perm.Basic
import Mathlib.Data.Option.Basic
import Arbiter.Proofs.Broker.Docket
import Arbiter.Proofs.Broker.Continuity

/-!
What a session is interested in, by its history. It holds a filter as often as it registered it and
did not take it back since; which of several copies is taken back, and in which order they are held,
makes no difference to any event. So a registration taken back later leaves nothing behind.
-/

namespace Arbiter

/-- The filter asks for the event: for status events by name, for others by each field that it does
not leave open. -/
def Filter.Covers (f key : Filter) : Prop :=
  key.subsystem = statusSubsystem ∧ f.subsystem = statusSubsystem ∨
    key.subsystem ≠ statusSubsystem ∧ (f.uid = 0 ∨ f.uid = key.uid) ∧
      (f.ruleId = 0 ∨ f.ruleId = key.ruleId) ∧ (f.subsystem = 0 ∨ f.subsystem = key.subsystem)

theorem Filter.selects_iff {f key : Filter} : f.selects key = true ↔ f.Covers key := by
  unfold selects Covers fieldMatches
  by_cases hkey : key.subsystem = statusSubsystem <;> simp [hkey, and_assoc]

theorem Session.interested_iff {sess : Session} {key : Filter} :
    sess.interested key = true ↔ ∃ f, 0 < sess.registrations.count f ∧ f.Covers key := by
  simp only [interested, List.any_eq_true, List.count_pos_iff, Filter.selects_iff]

namespace Step

variable {ω σ : Type}

def registers (step : Step ω σ) (s : SessionId) (f : Filter) : Bool :=
  match step.operation, step.response with
  | .register s' f', .done => s' = s && f' = f
  | _, _ => false

def unregisters (step : Step ω σ) (s : SessionId) (f : Filter) : Bool :=
  match step.operation, step.response with
  | .unregister s' f', .done => s' = s && f' = f
  | _, _ => false

theorem registers_iff {step : Step ω σ} {s : SessionId} {f : Filter} :
    step.registers s f = true ↔ step.operation = .register s f ∧ step.response = .done := by
  obtain ⟨before, operation, response, after⟩ := step
  cases operation <;> cases response <;> simp [registers]

theorem unregisters_iff {step : Step ω σ} {s : SessionId} {f : Filter} :
    step.unregisters s f = true ↔ step.operation = .unregister s f ∧ step.response = .done := by
  obtain ⟨before, operation, response, after⟩ := step
  cases operation <;> cases response <;> simp [unregisters]

end Step

section Balance

variable {ω σ : Type}

def balance (past : List (Step ω σ)) (s : SessionId) (f : Filter) : Int :=
  past.countP (·.registers s f) - past.countP (·.unregisters s f)

theorem balance_snoc (past : List (Step ω σ)) (step : Step ω σ) (s : SessionId) (f : Filter) :
    balance (past ++ [step]) s f = balance past s f + (if step.registers s f then 1 else 0) -
      (if step.unregisters s f then 1 else 0) := by
  simp only [balance, List.countP_append, List.countP_singleton]
  split <;> split <;> omega

end Balance

def Session.resubscribe {ω : Type} (sess : Session) (s : SessionId) :
    Operation ω → Option (List Filter)
  | .register s' f =>
    some (if s' = s ∧ sess.MayRegister f then sess.registrations ++ [f] else sess.registrations)
  | .unregister s' f => some (if s' = s then sess.registrations.erase f else sess.registrations)
  | .teardown s' => if s' = s then none else some sess.registrations
  | _ => some sess.registrations

namespace Exchange

variable {ω σ : Type} {t : Transport σ} {x y : Exchange ω σ} {s : SessionId} {sess : Session}
  {f : Filter} {op : Operation ω}

theorem perform_register (hs : x.broker.sessions.get? s = some sess) (f : Filter) :
    x.perform t (.register s f) = if sess.MayRegister f then
      (.done, x.withBroker (x.broker.modifySession s fun sess =>
        { sess with registrations := sess.registrations ++ [f] }))
      else (.refused (.permissionDenied sess.uid f), x) := by
  simp only [perform, Broker.register, hs]
  split <;> rfl

theorem perform_unregister (hs : x.broker.sessions.get? s = some sess) (f : Filter) :
    x.perform t (.unregister s f) = if f ∈ sess.registrations then
      (.done, x.withBroker (x.broker.modifySession s fun sess =>
        { sess with registrations := sess.registrations.erase f }))
      else (.refused (.noSuchRegistration f), x) := by
  simp only [perform, Broker.unregister, hs]
  split <;> rfl

theorem response_register : (x.perform t (.register s f)).1 = .done ↔
    ∃ sess, x.broker.sessions.get? s = some sess ∧ sess.MayRegister f := by
  cases hs : x.broker.sessions.get? s with
  | none => simp [perform, Broker.register, hs, update]
  | some sess =>
    rw [perform_register hs]
    by_cases hmay : sess.MayRegister f <;> simp [hmay]

theorem response_unregister : (x.perform t (.unregister s f)).1 = .done ↔
    ∃ sess, x.broker.sessions.get? s = some sess ∧ f ∈ sess.registrations := by
  cases hs : x.broker.sessions.get? s with
  | none => simp [perform, Broker.unregister, hs, update]
  | some sess =>
    rw [perform_unregister hs]
    by_cases hmem : f ∈ sess.registrations <;> simp [hmem]

theorem profile_perform (hb : x.broker.Coherent) (hissued : s.number < x.broker.nextId)
    {op : Operation ω} (hregister : ∀ f, op ≠ .register s f) (hunregister : ∀ f, op ≠ .unregister s f)
    (hteardown : op ≠ .teardown s) :
    ((x.perform t op).2.broker.sessions.get? s).map Session.profile =
      (x.broker.sessions.get? s).map Session.profile := by
  have hchange := perform_profile (t := t) hb op s
  generalize (x.perform t op).1 = r at hchange
  generalize ((x.perform t op).2.broker.sessions.get? s).map Session.profile = profile at hchange ⊢
  cases hchange with
  | same => rfl
  | opened _ _ hs => simp [hs] at hissued
  | registered hop =>
    rcases hop with ⟨g, hop | hop⟩
    · exact absurd hop (hregister g)
    · exact absurd hop (hunregister g)
  | tornDown hop => exact absurd hop hteardown

theorem closed_perform (hb : x.broker.Coherent) (hissued : s.number < x.broker.nextId)
    (hs : x.broker.sessions.get? s = none) (op : Operation ω) :
    (x.perform t op).2.broker.sessions.get? s = none := by
  have hchange := perform_profile (t := t) hb op s
  generalize (x.perform t op).1 = r at hchange
  rw [← Option.map_eq_none_iff (f := Session.profile)]
  generalize ((x.perform t op).2.broker.sessions.get? s).map Session.profile = profile at hchange
  cases hchange with
  | same => rw [hs, Option.map_none]
  | opened _ _ hs => simp [hs] at hissued
  | registered _ hs' => simp [hs] at hs'
  | tornDown => rfl

theorem perform_teardown_self (hb : x.broker.Coherent)
    (hs : x.broker.sessions.get? s = some sess) :
    (x.perform t (.teardown s)).2.broker.sessions.get? s = none := by
  have hresponse : (x.perform t (.teardown s)).1 = .tornDown ⟨sess.registrations.length,
      sess.pending.size, (closing x.broker s sess).ready.length⟩ := by
    simp only [perform, teardown_of_open hb hs, Prod.map, respond]
  have hchange := perform_profile (t := t) hb (.teardown s) s
  rw [hresponse] at hchange
  rw [← Option.map_eq_none_iff (f := Session.profile)]
  generalize ((x.perform t (.teardown s)).2.broker.sessions.get? s).map Session.profile =
    profile at hchange ⊢
  cases hchange with
  | same _ htorn => exact absurd rfl (htorn _ rfl)
  | opened hop => cases hop
  | registered hop => rcases hop with ⟨g, hop | hop⟩ <;> cases hop
  | tornDown => rfl

theorem registrations_of_opened (hb : x.broker.Coherent) (hs : x.broker.sessions.get? s = none)
    {op : Operation ω} (hopen : (x.perform t op).2.broker.sessions.get? s = some sess) :
    sess.registrations = [] := by
  have hchange := perform_profile (t := t) hb op s
  rw [hopen, Option.map_some] at hchange
  generalize (x.perform t op).1 = r at hchange
  generalize hprofile : some sess.profile = profile at hchange
  cases hchange with
  | same => simp [hs] at hprofile
  | opened =>
    simp only [Session.profile, Option.some.injEq, Prod.mk.injEq] at hprofile
    exact hprofile.2.2
  | registered _ hs' => simp [hs] at hs'
  | tornDown => cases hprofile

theorem resubscribe_perform (hb : x.broker.Coherent) (hs : x.broker.sessions.get? s = some sess)
    (op : Operation ω) : ((x.perform t op).2.broker.sessions.get? s).map Session.profile =
      (sess.resubscribe s op).map fun regs => (sess.uid, sess.channel, regs) := by
  have hissued := hb.session_issued hs
  cases op with
  | register s' f =>
    by_cases hself : s' = s
    · subst s'
      rw [perform_register hs]
      by_cases hmay : sess.MayRegister f
      · simp [hmay, withBroker, Broker.modifySession, Table.get?_modify, hs, Session.profile,
          Session.resubscribe]
      · simp [hmay, hs, Session.profile, Session.resubscribe]
    · rw [profile_perform hb hissued (by simp [hself]) (by simp) (by simp), hs]
      simp [Session.resubscribe, hself, Session.profile]
  | unregister s' f =>
    by_cases hself : s' = s
    · subst s'
      rw [perform_unregister hs]
      by_cases hmem : f ∈ sess.registrations
      · simp [hmem, withBroker, Broker.modifySession, Table.get?_modify, hs, Session.profile,
          Session.resubscribe]
      · simp [hmem, hs, Session.profile, Session.resubscribe, List.erase_of_not_mem]
    · rw [profile_perform hb hissued (by simp) (by simp [hself]) (by simp), hs]
      simp [Session.resubscribe, hself, Session.profile]
  | teardown s' =>
    by_cases hself : s' = s
    · subst s'
      rw [perform_teardown_self hb hs]
      simp [Session.resubscribe]
    · rw [profile_perform hb hissued (by simp) (by simp) (by simp [hself]), hs]
      simp [Session.resubscribe, hself, Session.profile]
  | _ =>
    rw [profile_perform hb hissued (by simp) (by simp) (by simp), hs]
    rfl

theorem registers_step : (x.step t op).registers s f = true ↔
    op = .register s f ∧ ∃ sess, x.broker.sessions.get? s = some sess ∧ sess.MayRegister f := by
  rw [Step.registers_iff]
  refine and_congr_right fun hop => ?_
  obtain rfl : op = .register s f := hop
  exact response_register

theorem unregisters_step : (x.step t op).unregisters s f = true ↔
    op = .unregister s f ∧ ∃ sess, x.broker.sessions.get? s = some sess ∧
      f ∈ sess.registrations := by
  rw [Step.unregisters_iff]
  refine and_congr_right fun hop => ?_
  obtain rfl : op = .unregister s f := hop
  exact response_unregister

theorem balance_of_closed (hs : x.broker.sessions.get? s = none) (past : List (Step ω σ))
    (op : Operation ω) (f : Filter) : balance (past ++ [x.step t op]) s f = balance past s f := by
  have hregisters : ¬(x.step t op).registers s f = true := by simp [registers_step, hs]
  have hunregisters : ¬(x.step t op).unregisters s f = true := by simp [unregisters_step, hs]
  rw [balance_snoc, if_neg hregisters, if_neg hunregisters]
  omega

theorem registers_of_open (hs : x.broker.sessions.get? s = some sess) :
    (x.step t op).registers s f = true ↔ op = .register s f ∧ sess.MayRegister f := by
  simp [registers_step, hs]

theorem unregisters_of_open (hs : x.broker.sessions.get? s = some sess) :
    (x.step t op).unregisters s f = true ↔ op = .unregister s f ∧ f ∈ sess.registrations := by
  simp [unregisters_step, hs]

theorem count_register (hs : x.broker.sessions.get? s = some sess) (s' : SessionId)
    (g f : Filter) :
    (if s' = s ∧ sess.MayRegister g then sess.registrations ++ [g] else sess.registrations).count f =
      sess.registrations.count f +
        if (x.step t (.register s' g)).registers s f then 1 else 0 := by
  have hregisters : (x.step t (.register s' g)).registers s f = true ↔
      (s' = s ∧ g = f) ∧ sess.MayRegister f := by
    rw [registers_of_open hs, Operation.register.injEq]
  by_cases hadds : s' = s ∧ sess.MayRegister g
  · by_cases hg : g = f
    · subst hg
      rw [if_pos hadds, if_pos (hregisters.mpr ⟨⟨hadds.1, rfl⟩, hadds.2⟩), List.count_append,
        List.count_singleton_self]
    · rw [if_pos hadds, if_neg fun h => hg (hregisters.mp h).1.2, List.count_append,
        List.count_singleton, if_neg (by simpa using hg)]
  · rw [if_neg hadds, if_neg, Nat.add_zero]
    intro h
    obtain ⟨⟨hself, rfl⟩, hmay⟩ := hregisters.mp h
    exact hadds ⟨hself, hmay⟩

theorem count_unregister (hs : x.broker.sessions.get? s = some sess) (s' : SessionId)
    (g f : Filter) :
    (if s' = s then sess.registrations.erase g else sess.registrations).count f +
      (if (x.step t (.unregister s' g)).unregisters s f then 1 else 0) =
        sess.registrations.count f := by
  have hunregisters : (x.step t (.unregister s' g)).unregisters s f = true ↔
      (s' = s ∧ g = f) ∧ f ∈ sess.registrations := by
    rw [unregisters_of_open hs, Operation.unregister.injEq]
  by_cases htakes : (s' = s ∧ g = f) ∧ f ∈ sess.registrations
  · have hpos := List.count_pos_iff.mpr htakes.2
    rw [if_pos (hunregisters.mpr htakes), if_pos htakes.1.1, htakes.1.2, List.count_erase_self]
    omega
  · rw [if_neg (mt hunregisters.mp htakes), Nat.add_zero]
    split
    · rename_i hself
      by_cases hg : g = f
      · rw [hg, List.erase_of_not_mem fun hmem => htakes ⟨⟨hself, hg⟩, hmem⟩]
      · exact List.count_erase_of_ne (Ne.symm hg)
    · rfl

theorem count_resubscribe (hs : x.broker.sessions.get? s = some sess) {op : Operation ω}
    {regs : List Filter} (hregs : sess.resubscribe s op = some regs) (f : Filter) :
    (regs.count f : Int) = sess.registrations.count f +
      (if (x.step t op).registers s f then 1 else 0) -
        (if (x.step t op).unregisters s f then 1 else 0) := by
  have hregisters {op : Operation ω} (hop : op ≠ .register s f) :
      ¬(x.step t op).registers s f = true := fun h => hop ((registers_of_open hs).mp h).1
  have hunregisters {op : Operation ω} (hop : op ≠ .unregister s f) :
      ¬(x.step t op).unregisters s f = true := fun h => hop ((unregisters_of_open hs).mp h).1
  cases op with
  | register s' g =>
    obtain rfl := Option.some.inj hregs
    rw [count_register (t := t) hs, if_neg (hunregisters (by simp))]
    split <;> omega
  | unregister s' g =>
    obtain rfl := Option.some.inj hregs
    have hcount := count_unregister (t := t) hs s' g f
    rw [if_neg (hregisters (by simp))]
    by_cases htaken : (x.step t (.unregister s' g)).unregisters s f = true
    · rw [if_pos htaken] at hcount ⊢
      omega
    · rw [if_neg htaken] at hcount ⊢
      omega
  | teardown s' =>
    simp only [Session.resubscribe] at hregs
    split at hregs
    · cases hregs
    · rw [if_neg (hregisters (by simp)), if_neg (hunregisters (by simp)), Option.some.inj hregs]
      omega
  | _ =>
    rw [if_neg (hregisters (by simp)), if_neg (hunregisters (by simp)), Option.some.inj hregs]
    omega

structure Counted (past : List (Step ω σ)) (x : Exchange ω σ) : Prop where
  coherent : x.broker.Coherent
  held {s : SessionId} {sess : Session} (f : Filter) : x.broker.sessions.get? s = some sess →
    (sess.registrations.count f : Int) = balance past s f
  unissued {s : SessionId} (f : Filter) : x.broker.nextId ≤ s.number → balance past s f = 0

theorem counted_start (capacity : Nat) (transport : σ) :
    Counted [] (start (.new capacity : Broker ω) transport) where
  coherent := Broker.coherent_new capacity
  held _ hs := by cases hs
  unissued _ _ := rfl

theorem Counted.perform {past : List (Step ω σ)} (h : Counted past x) (op : Operation ω) :
    Counted (past ++ [x.step t op]) (x.perform t op).2 where
  coherent := coherent_perform h.coherent op
  held {s sess'} f hs' := by
    cases hs : x.broker.sessions.get? s with
    | some sess =>
      have hprofile := resubscribe_perform (t := t) h.coherent hs op
      rw [hs', Option.map_some, eq_comm, Option.map_eq_some_iff] at hprofile
      obtain ⟨regs, hregs, hsame⟩ := hprofile
      simp only [Session.profile, Prod.mk.injEq] at hsame
      rw [← hsame.2.2, count_resubscribe (t := t) hs hregs, h.held f hs, balance_snoc]
    | none =>
      have hfresh : x.broker.nextId ≤ s.number := by
        by_contra hissued
        rw [closed_perform h.coherent (Nat.not_le.mp hissued) hs] at hs'
        cases hs'
      rw [registrations_of_opened h.coherent hs hs', balance_of_closed hs, h.unissued f hfresh]
      rfl
  unissued {s} f hs := by
    have hfresh := Nat.le_trans (nextId_perform (t := t) h.coherent op) hs
    rw [balance_of_closed (h.coherent.session_fresh hfresh), h.unissued f hfresh]

/-- The session holds some filters in `x` beside those it holds in `y`, or is open in neither. -/
structure Ahead (s : SessionId) (extra : List Filter) (x y : Exchange ω σ) : Prop where
  coherent : x.broker.Coherent ∧ y.broker.Coherent
  issued : s.number < x.broker.nextId ∧ s.number < y.broker.nextId
  sessions : Option.Rel (fun sess sess' => sess.uid = sess'.uid ∧
      sess.registrations.Perm (extra ++ sess'.registrations))
    (x.broker.sessions.get? s) (y.broker.sessions.get? s)

theorem resubscribe_perm {sess sess' : Session} {extra : List Filter}
    (huid : sess.uid = sess'.uid)
    (hregs : sess.registrations.Perm (extra ++ sess'.registrations)) {op : Operation ω}
    (hop : ∀ f ∈ extra, op ≠ .unregister s f) :
    Option.Rel (fun regs regs' => regs.Perm (extra ++ regs')) (sess.resubscribe s op)
      (sess'.resubscribe s op) := by
  cases op with
  | register s' f =>
    have hmay : sess.MayRegister f ↔ sess'.MayRegister f := by
      unfold Session.MayRegister Session.Privileged
      rw [huid]
    refine .some ?_
    by_cases hadds : s' = s ∧ sess'.MayRegister f
    · simp only [hmay, if_pos hadds, ← List.append_assoc]
      exact hregs.append_right [f]
    · simp only [hmay, if_neg hadds]
      exact hregs
  | unregister s' f =>
    refine .some ?_
    by_cases hself : s' = s
    · subst s'
      have hnot : f ∉ extra := fun hmem => hop f hmem rfl
      simp only [if_true]
      rw [← List.erase_append_right _ hnot]
      exact hregs.erase f
    · simp only [if_neg hself]
      exact hregs
  | teardown s' =>
    by_cases hself : s' = s
    · simp only [Session.resubscribe, if_pos hself]
      exact .none
    · simp only [Session.resubscribe, if_neg hself]
      exact .some hregs
  | _ => exact .some hregs

theorem Ahead.perform {extra : List Filter} (h : Ahead s extra x y) {op : Operation ω}
    (hop : ∀ f ∈ extra, op ≠ .unregister s f) :
    Ahead s extra (x.perform t op).2 (y.perform t op).2 where
  coherent := ⟨coherent_perform h.coherent.1 op, coherent_perform h.coherent.2 op⟩
  issued := ⟨Nat.lt_of_lt_of_le h.issued.1 (nextId_perform h.coherent.1 op),
    Nat.lt_of_lt_of_le h.issued.2 (nextId_perform h.coherent.2 op)⟩
  sessions := by
    have hsessions := h.sessions
    generalize hx : x.broker.sessions.get? s = left at hsessions
    generalize hy : y.broker.sessions.get? s = right at hsessions
    cases hsessions with
    | none =>
      rw [closed_perform h.coherent.1 h.issued.1 hx, closed_perform h.coherent.2 h.issued.2 hy]
      exact .none
    | @some sess sess' hsame =>
      have hx' := resubscribe_perform (t := t) h.coherent.1 hx op
      have hy' := resubscribe_perform (t := t) h.coherent.2 hy op
      have hregs := resubscribe_perm hsame.1 hsame.2 hop
      generalize sess.resubscribe s op = left at hx' hregs
      generalize sess'.resubscribe s op = right at hy' hregs
      cases hregs with
      | none =>
        rw [Option.map_none, Option.map_eq_none_iff] at hx' hy'
        rw [hx', hy']
        exact .none
      | some hperm =>
        rw [Option.map_some, Option.map_eq_some_iff] at hx' hy'
        obtain ⟨sess₁, hsess₁, hprofile₁⟩ := hx'
        obtain ⟨sess₂, hsess₂, hprofile₂⟩ := hy'
        simp only [Session.profile, Prod.mk.injEq] at hprofile₁ hprofile₂
        rw [hsess₁, hsess₂]
        refine .some ⟨?_, ?_⟩
        · rw [hprofile₁.1, hprofile₂.1, hsame.1]
        · rw [hprofile₁.2.2, hprofile₂.2.2]
          exact hperm

theorem Ahead.run {extra : List Filter} (h : Ahead s extra x y) (ops : List (Operation ω))
    (hops : ∀ op ∈ ops, ∀ f ∈ extra, op ≠ .unregister s f) :
    Ahead s extra (x.run t ops).2 (y.run t ops).2 := by
  induction ops generalizing x y with
  | nil => exact h
  | cons op ops ih =>
    exact ih (h.perform (hops op List.mem_cons_self))
      fun op' hop' => hops op' (List.mem_cons_of_mem op hop')

theorem ahead_register (hb : x.broker.Coherent) {f : Filter}
    (hdone : (x.perform t (.register s f)).1 = .done) :
    Ahead s [f] (x.perform t (.register s f)).2 x := by
  obtain ⟨sess, hs, hmay⟩ := response_register.mp hdone
  have hissued := hb.session_issued hs
  refine ⟨⟨coherent_perform hb _, hb⟩,
    ⟨Nat.lt_of_lt_of_le hissued (nextId_perform hb _), hissued⟩, ?_⟩
  rw [perform_register hs, if_pos hmay]
  simp only [withBroker, Broker.modifySession, Table.get?_modify, hs, if_true, Option.map_some]
  exact .some ⟨rfl, List.perm_append_comm⟩

theorem Ahead.unregister {f : Filter} (h : Ahead s [f] x y)
    (hdone : (x.perform t (.unregister s f)).1 = .done) :
    Ahead s [] (x.perform t (.unregister s f)).2 y := by
  obtain ⟨sess, hs, hmem⟩ := response_unregister.mp hdone
  refine ⟨⟨coherent_perform h.coherent.1 _, h.coherent.2⟩,
    ⟨Nat.lt_of_lt_of_le h.issued.1 (nextId_perform h.coherent.1 _), h.issued.2⟩, ?_⟩
  have hsessions := h.sessions
  rw [hs] at hsessions
  generalize y.broker.sessions.get? s = right at hsessions ⊢
  cases hsessions with
  | @some _ sess' hsame =>
    rw [perform_unregister hs, if_pos hmem]
    simp only [withBroker, Broker.modifySession, Table.get?_modify, hs, if_true, Option.map_some]
    refine .some ⟨hsame.1, ?_⟩
    simpa using hsame.2.erase f

theorem Ahead.interested (h : Ahead s [] x y) :
    (x.broker.sessions.get? s).map Session.interested =
      (y.broker.sessions.get? s).map Session.interested := by
  have hsessions := h.sessions
  generalize x.broker.sessions.get? s = left at hsessions ⊢
  generalize y.broker.sessions.get? s = right at hsessions ⊢
  cases hsessions with
  | none => rfl
  | some hsame =>
    rw [Option.map_some, Option.map_some, Option.some.injEq]
    exact funext fun key => hsame.2.any_eq

theorem run_append (t : Transport σ) (x : Exchange ω σ) (ops ops' : List (Operation ω)) :
    (run t x (ops ++ ops')).2 = (run t (run t x ops).2 ops').2 := by
  induction ops generalizing x with
  | nil => rfl
  | cons op ops ih => exact ih _

/-- What the sessions that are open after a run subscribe to. -/
structure Subscriptions (t : Transport σ) (capacity : Nat) (transport : σ)
    (ops : List (Operation ω)) (past : List (Step ω σ)) (x : Exchange ω σ) : Prop where
  held {s : SessionId} {sess : Session} (f : Filter) : x.broker.sessions.get? s = some sess →
    (sess.registrations.count f : Int) = balance past s f
  unregister {s : SessionId} {sess : Session} (f : Filter) : x.broker.sessions.get? s = some sess →
    ((x.perform t (.unregister s f)).1 = .done ↔ 0 < balance past s f)
  interested {s : SessionId} {sess : Session} (key : Filter) : x.broker.sessions.get? s = some sess →
    (sess.interested key = true ↔ ∃ f, 0 < balance past s f ∧ f.Covers key)
  /-- What was registered and taken back again, with nothing else in between that names it, might
  as well have been left out of the run. -/
  undone {before between after : List (Operation ω)} {s : SessionId} {f : Filter} :
    ops = before ++ .register s f :: (between ++ .unregister s f :: after) →
    ((run t (start (.new capacity) transport) before).2.perform t (.register s f)).1 = .done →
    ((run t (start (.new capacity) transport) (before ++ .register s f :: between)).2.perform t
      (.unregister s f)).1 = .done →
    (∀ op ∈ between, op ≠ .register s f ∧ op ≠ .unregister s f) →
    (x.broker.sessions.get? s).map Session.interested =
      ((run t (start (.new capacity) transport) (before ++ between ++ after)).2.broker.sessions.get?
        s).map Session.interested

theorem subscriptions_run (t : Transport σ) (capacity : Nat) (transport : σ)
    (ops : List (Operation ω)) :
    Subscriptions t capacity transport ops (history t (start (.new capacity) transport) ops)
      (run t (start (.new capacity) transport) ops).2 := by
  have hcounted := run_induction (counted_start capacity transport)
    (fun op h => h.perform (t := t) op) ops
  refine ⟨fun f hs => hcounted.held f hs, fun {s sess} f hs => ?_, fun {s sess} key hs => ?_, ?_⟩
  · rw [response_unregister, ← hcounted.held f hs]
    simp [hs]
  · simp only [Session.interested_iff, ← hcounted.held _ hs, Int.natCast_pos]
  · rintro before between after s f rfl hregister hunregister hbetween
    have hbefore := coherent_run t capacity transport before
    have hahead := (ahead_register hbefore hregister).run (t := t) between
      fun op hop g hg => List.mem_singleton.mp hg ▸ (hbetween op hop).2
    rw [run_append] at hunregister
    have hlevel := (hahead.unregister hunregister).run (t := t) after (by simp)
    have hwith : (run t (start (.new capacity) transport)
        (before ++ .register s f :: (between ++ .unregister s f :: after))).2 =
        (run t ((run t ((run t (start (.new capacity) transport) before).2.perform t
          (.register s f)).2 between).2.perform t (.unregister s f)).2 after).2 := by
      rw [run_append]
      exact run_append t _ between _
    rw [hwith, run_append, run_append]
    exact hlevel.interested

-- The copy that is taken back is the first of two, and a wildcard still asks for the event.
example :
    let t : Transport Unit := ⟨fun _ _ _ => (.ok (), ())⟩
    let ops : List (Operation String) := [.openSession 0 ⟨1⟩, .register ⟨1⟩ ⟨5, 0, 3⟩,
      .register ⟨1⟩ ⟨0, 0, 3⟩, .register ⟨1⟩ ⟨5, 0, 3⟩, .unregister ⟨1⟩ ⟨5, 0, 3⟩]
    ((run t (start (.new 4) ()) ops).2.broker.sessions.get? ⟨1⟩).map (fun sess =>
      (sess.registrations, sess.interested ⟨7, 2, 3⟩, sess.interested ⟨5, 0, 4⟩)) =
        some ([⟨0, 0, 3⟩, ⟨5, 0, 3⟩], true, false) := by
  decide +kernel

end Exchange

end Arbiter
