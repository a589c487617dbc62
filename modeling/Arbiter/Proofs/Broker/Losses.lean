import Arbiter.Proofs.Broker.Continuity
import Arbiter.Proofs.Broker.Resolutions

/-!
Sessions lost while another one ends. Whatever the tables of the broker say, all sessions but the
one that ends stay, each with its user, its channel and its registrations, and a session is lost
then iff it was lost before or a result for it was refused meanwhile.
-/

namespace Arbiter

def Session.standing (sess : Session) : (UInt32 × ChannelId × List Filter) × Bool :=
  (sess.profile, sess.lost)

def Session.Survives (isRefused : Bool) (before now : Option Session) : Prop :=
  now.map Session.standing = before.map fun sess => (sess.profile, sess.lost || isRefused)

namespace Session.Survives

variable {before now later : Option Session} {first second : Bool} {sess : Session}

theorem refl (before : Option Session) : Survives false before before := by
  refine congrArg (Option.map · _) (funext fun sess => ?_)
  rw [Bool.or_false]
  rfl

theorem trans (h : Survives first before now) (h' : Survives second now later) :
    Survives (first || second) before later := by
  have hmiddle := congrArg (Option.map fun standing => (standing.1, standing.2 || second)) h
  rw [Option.map_map, Option.map_map] at hmiddle
  refine Eq.trans h' (Eq.trans hmiddle ?_)
  simp only [Function.comp_def, Bool.or_assoc]

theorem exists_before (h : Survives first before now) (hs : now = some sess) :
    ∃ sess₀, before = some sess₀ ∧ sess.profile = sess₀.profile ∧
      sess.lost = (sess₀.lost || first) := by
  rw [Survives, hs, Option.map_some, eq_comm, Option.map_eq_some_iff] at h
  obtain ⟨sess₀, hbefore, hsame⟩ := h
  obtain ⟨hprofile, hlost⟩ := Prod.mk.injEq .. ▸ hsame
  exact ⟨sess₀, hbefore, hprofile.symm, hlost.symm⟩

theorem exists_now (h : Survives first before now) (hs : before = some sess) :
    ∃ sess', now = some sess' ∧ sess'.profile = sess.profile ∧
      sess'.lost = (sess.lost || first) := by
  rw [Survives, hs, Option.map_some, Option.map_eq_some_iff] at h
  obtain ⟨sess', hnow, hsame⟩ := h
  obtain ⟨hprofile, hlost⟩ := Prod.mk.injEq .. ▸ hsame
  exact ⟨sess', hnow, hprofile, hlost⟩

theorem eq_none (h : Survives first before now) (hs : before = none) : now = none := by
  subst hs
  exact Option.map_eq_none_iff.mp h

theorem map_channel (h : Survives first before now) :
    now.map Session.channel = before.map Session.channel := by
  have hchannel := congrArg (Option.map fun standing => standing.1.2.1) h
  rwa [Option.map_map, Option.map_map] at hchannel

end Session.Survives

theorem Session.channel_of_profile {sess sess' : Session} (h : sess'.profile = sess.profile) :
    sess'.channel = sess.channel :=
  congrArg (fun profile => profile.2.1) h

theorem Broker.survives_markLost {ω : Type} (b : Broker ω) (s s' : SessionId) :
    Session.Survives (decide (s = s')) (b.sessions.get? s')
      ((b.markLost s).sessions.get? s') := by
  have hlost := Table.get?_modify b.sessions s s' fun sess => { sess with lost := true }
  rw [Session.Survives, Broker.markLost, Broker.modifySession, hlost]
  by_cases hsame : s' = s
  · rw [if_pos hsame, Option.map_map, decide_eq_true hsame.symm]
    simp only [Function.comp_def, Session.standing, Session.profile, Bool.or_true]
  · rw [if_neg hsame, decide_eq_false (Ne.symm hsame)]
    simp only [Bool.or_false]
    rfl

theorem refused_singleton (s : SessionId) (send : Send) :
    refused s [send] = (send.purpose.tells s && !send.result.isOk) :=
  Bool.or_false _

namespace Exchange

variable {ω σ : Type} {x y z : Exchange ω σ} {new new' : List Send}

/-- From `x` to `y` no session ended, and those were lost to which one of the sends was refused. -/
structure Loses (x y : Exchange ω σ) (new : List Send) : Prop where
  sends : y.sends = x.sends ++ new
  sessions (s : SessionId) :
    Session.Survives (refused s new) (x.broker.sessions.get? s) (y.broker.sessions.get? s)
  addressed {send : Send} : send ∈ new → ∃ s sess, send.purpose.tells s = true ∧
    x.broker.sessions.get? s = some sess ∧ send.channel = sess.channel

namespace Loses

theorem quiet (hsends : y.sends = x.sends) (hsessions : ∀ s,
    (y.broker.sessions.get? s).map Session.standing =
      (x.broker.sessions.get? s).map Session.standing) : Loses x y [] where
  sends := by rw [hsends, List.append_nil]
  sessions s := Eq.trans (hsessions s) (Session.Survives.refl (x.broker.sessions.get? s))
  addressed h := nomatch h

theorem trans (h : Loses x y new) (h' : Loses y z new') : Loses x z (new ++ new') where
  sends := by rw [h'.sends, h.sends, List.append_assoc]
  sessions s := by
    rw [refused_append]
    exact (h.sessions s).trans (h'.sessions s)
  addressed {send} hs := by
    rcases List.mem_append.mp hs with hs | hs
    · exact h.addressed hs
    · obtain ⟨s, sess', htells, hsess', hchannel⟩ := h'.addressed hs
      obtain ⟨sess, hsess, hprofile, -⟩ := (h.sessions s).exists_before hsess'
      exact ⟨s, sess, htells, hsess, hchannel.trans (Session.channel_of_profile hprofile)⟩

end Loses

theorem conclude_loses (t : Transport σ) (h : Head ω) (progress : Nat × Exchange ω σ)
    (i : InstanceId) : ∃ new, Loses progress.2 (conclude t h progress i).2 new := by
  obtain ⟨n, x⟩ := progress
  have hsettled {b : Broker ω} (s' : SessionId) (token : UInt64) (s : SessionId) :
      (((b.modifySession s' (·.settle token)).sessions.get? s).map Session.standing) =
        (b.sessions.get? s).map Session.standing :=
    Table.map_get?_modify _ _ _ fun _ => rfl
  simp only [conclude]
  split
  · exact ⟨[], .quiet rfl fun _ => rfl⟩
  · rename_i inst hi
    split
    · exact ⟨[], .quiet rfl fun _ => rfl⟩
    · rename_i sess hs
      split
      · exact ⟨[], .quiet rfl (hsettled _ _)⟩
      · rename_i m hm
        have hbroker := send_broker t (x.withBroker
          { x.broker with instances := x.broker.instances.erase i })
          (.outcome inst.session inst.head) sess.channel m
        have hsends := send_sends t (x.withBroker
          { x.broker with instances := x.broker.instances.erase i })
          (.outcome inst.session inst.head) sess.channel m
        have haddressed (result : Except SendRefusal Unit) {send : Send}
            (hmem : send ∈ [⟨.outcome inst.session inst.head, sess.channel, m, result⟩]) :
            ∃ s sess, send.purpose.tells s = true ∧ x.broker.sessions.get? s = some sess ∧
              send.channel = sess.channel := by
          obtain rfl := List.mem_singleton.mp hmem
          exact ⟨inst.session, sess, decide_eq_true rfl, hs, rfl⟩
        split <;> rename_i heq <;> rw [heq] at hbroker hsends
        · refine ⟨_, hsends, fun s => Eq.trans (hsettled _ _ s) ?_, haddressed _⟩
          rw [hbroker, refused_singleton]
          simp only [Except.isOk, Except.toBool, Bool.not_true, Bool.and_false]
          exact Session.Survives.refl (x.broker.sessions.get? s)
        · refine ⟨_, hsends, fun s => Eq.trans (hsettled _ _ s) ?_, haddressed _⟩
          rw [hbroker, refused_singleton]
          simp only [Purpose.tells, Except.isOk, Except.toBool, Bool.not_false, Bool.and_true]
          exact Broker.survives_markLost _ _ _

theorem foldl_loses {α : Type} {f : Nat × Exchange ω σ → α → Nat × Exchange ω σ}
    (hf : ∀ progress a, ∃ new, Loses progress.2 (f progress a).2 new) (as : List α)
    (progress : Nat × Exchange ω σ) : ∃ new, Loses progress.2 (as.foldl f progress).2 new := by
  induction as generalizing progress with
  | nil => exact ⟨[], .quiet rfl fun _ => rfl⟩
  | cons a as ih =>
    obtain ⟨new, hfirst⟩ := hf progress a
    obtain ⟨new', hrest⟩ := ih (f progress a)
    exact ⟨new ++ new', hfirst.trans hrest⟩

theorem broadcast_loses (t : Transport σ) (x : Exchange ω σ) (head : HeadId) :
    ∃ new, Loses x (x.broadcast t head).2 new := by
  unfold broadcast
  split
  · exact ⟨[], .quiet rfl fun _ => rfl⟩
  · rename_i h hh
    obtain ⟨new, hloop⟩ := foldl_loses (conclude_loses t h) h.instances (0, { x with
      broker := { x.broker with heads := x.broker.heads.erase head }
      resolved := x.resolved ++ [head] })
    refine ⟨new, ?_⟩
    simp only [complete_eq]
    exact ⟨hloop.sends, hloop.sessions, hloop.addressed⟩

theorem resolveNext_loses (t : Transport σ) (progress : Nat × Exchange ω σ) (head : HeadId) :
    ∃ new, Loses progress.2 (resolveNext t progress head).2 new := by
  obtain ⟨resolved, x⟩ := progress
  have hbroadcast := broadcast_loses t x head
  simp only [resolveNext]
  split <;> rename_i heq <;> rw [heq] at hbroadcast <;> exact hbroadcast

theorem withdraw_sessions (w : Withdrawal ω) (i : InstanceId) :
    (withdraw w i).broker.sessions = w.broker.sessions := by
  unfold withdraw
  split
  · rfl
  · simp only
    split <;> rfl

theorem foldl_withdraw_sessions (w : Withdrawal ω) (is : List InstanceId) :
    (is.foldl withdraw w).broker.sessions = w.broker.sessions := by
  induction is generalizing w with
  | nil => rfl
  | cons i is ih => rw [List.foldl_cons, ih, withdraw_sessions]

theorem teardown_loses (t : Transport σ) (x : Exchange ω σ) (s : SessionId) :
    ∃ new, Loses (x.withBroker { x.broker with sessions := x.broker.sessions.erase s })
      (x.teardown t s).2 new := by
  unfold teardown
  split
  · rename_i hs
    refine ⟨[], .quiet rfl fun s' => ?_⟩
    show _ = ((x.broker.sessions.erase s).get? s').map _
    rw [Table.get?_erase]
    split
    · rename_i hsame
      rw [hsame, hs]
    · rfl
  · rename_i sess hs
    simp only
    obtain ⟨new, hloop⟩ := foldl_loses (resolveNext_loses t)
      (sess.pending.values.foldl withdraw
        ⟨{ x.broker with sessions := x.broker.sessions.erase s }, 0, []⟩).ready
      (0, x.withBroker (sess.pending.values.foldl withdraw
        ⟨{ x.broker with sessions := x.broker.sessions.erase s }, 0, []⟩).broker)
    -- The heads of the session change before any is resolved; the other sessions do not.
    have hsame := foldl_withdraw_sessions
      (⟨{ x.broker with sessions := x.broker.sessions.erase s }, 0, []⟩ : Withdrawal ω)
      sess.pending.values
    refine ⟨new, hloop.sends, fun s' => ?_, fun hmem => ?_⟩
    · exact hsame ▸ hloop.sessions s'
    · exact hsame ▸ hloop.addressed hmem

end Exchange

end Arbiter
