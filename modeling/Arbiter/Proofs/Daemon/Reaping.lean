import Mathlib.Data.List.Perm.Subperm
import Arbiter.Proofs.Daemon.Turns

/-!
Lost sessions. Reaping a session ends it, with its connection if it has one, and no other; rounds as
many as there are sessions end all that are lost, those too that are lost in between. So between two
events no session is lost.
-/

namespace Arbiter

theorem Table.size_lt {κ α : Type} [DecidableEq κ] {t t' : Table κ α} {k : κ}
    (hk : t.get? k ≠ none) (hk' : t'.get? k = none)
    (hsub : ∀ k', t'.get? k' ≠ none → t.get? k' ≠ none) : t'.size < t.size := by
  have hmem {t : Table κ α} {k : κ} : t.get? k ≠ none ↔ k ∈ t.keys := by
    rw [ne_eq, Table.get?_eq_none, not_not]
  have hnodup : (k :: t'.keys).Nodup :=
    List.nodup_cons.mpr ⟨fun h => hmem.mpr h hk', t'.nodup⟩
  have hle : (k :: t'.keys).length ≤ t.keys.length := by
    refine (hnodup.subperm fun k' hk' => ?_).length_le
    rcases List.mem_cons.mp hk' with rfl | hk'
    · exact hmem.mp hk
    · exact hmem.mp (hsub k' (hmem.mpr hk'))
  rw [List.length_cons, keys, keys, List.length_map, List.length_map] at hle
  exact hle

theorem Broker.lostSessions_present {ω : Type} {b : Broker ω} {s : SessionId}
    (hs : s ∈ b.lostSessions) : b.sessions.get? s ≠ none := by
  obtain ⟨⟨s', sess⟩, hmem, rfl⟩ := List.mem_map.mp hs
  rw [Table.get?_eq_some.mpr (List.mem_of_mem_filter hmem)]
  exact Option.some_ne_none _

theorem Broker.lost_of_lostSessions {ω : Type} {b : Broker ω} (hlost : b.lostSessions = [])
    {s : SessionId} {sess : Session} (hs : b.sessions.get? s = some sess) : sess.lost = false := by
  by_contra hnot
  have hmem : (s, sess) ∈ b.sessions.entries.filter (·.2.lost) :=
    List.mem_filter.mpr ⟨Table.get?_eq_some.mp hs, by simpa using hnot⟩
  rw [Broker.lostSessions, List.map_eq_nil_iff] at hlost
  rw [hlost] at hmem
  cases hmem

namespace Daemon

variable {γ : Type} {d : Daemon γ} {e : DaemonEvent γ}

theorem reap_member (hb : d.broker.Coherent) (s s' : SessionId) :
    (d.reap s).member s' = if s' = s then none else d.member s' := by
  unfold reap
  split
  · rename_i channel c hfind
    have hc : d.connections.get? channel = some c :=
      Table.get?_eq_some.mpr (List.mem_of_find?_eq_some hfind)
    have hsession : c.session = some s := by simpa using List.find?_some hfind
    rw [close_member hb hc, hsession]
    by_cases hsame : s' = s
    · rw [if_pos (congrArg some hsame.symm), if_pos hsame]
    · rw [if_neg fun heq => hsame (Option.some.inj heq).symm, if_neg hsame]
  · exact teardown_member hb s s'

theorem foldl_reap_member (hb : d.broker.Coherent) (lost : List SessionId) (s : SessionId) :
    (lost.foldl reap d).member s = if s ∈ lost then none else d.member s := by
  induction lost generalizing d with
  | nil => exact (if_neg List.not_mem_nil).symm
  | cons s₀ lost ih =>
    rw [List.foldl_cons, ih (turn_reap hb s₀).coherent, reap_member hb]
    by_cases hs₀ : s = s₀ <;> by_cases hlost : s ∈ lost <;> simp [hs₀, hlost]

theorem reapRounds_lostSessions (hb : d.broker.Coherent) {rounds : Nat}
    (hrounds : d.broker.sessions.size ≤ rounds) :
    (reapRounds rounds d).broker.lostSessions = [] := by
  induction rounds generalizing d with
  | zero =>
    have hempty : d.broker.sessions.entries = [] :=
      List.eq_nil_of_length_eq_zero (Nat.le_zero.mp hrounds)
    rw [reapRounds, Broker.lostSessions, hempty]
    rfl
  | succ rounds ih =>
    unfold reapRounds
    cases hlost : d.broker.lostSessions with
    | nil => exact hlost
    | cons s₀ lost =>
      have hmember := foldl_reap_member hb (s₀ :: lost)
      have hreaped := turn_foldl (fun s hb => turn_reap hb s) (s₀ :: lost) hb
      refine ih hreaped.coherent (Nat.le_of_lt_succ (Nat.lt_of_lt_of_le ?_ hrounds))
      have habsent {d' : Daemon γ} {s : SessionId} :
          d'.broker.sessions.get? s = none ↔ d'.member s = none := Option.map_eq_none_iff.symm
      apply Table.size_lt (k := s₀)
      · exact Broker.lostSessions_present (hlost ▸ List.mem_cons_self ..)
      · rw [habsent, hmember, if_pos (List.mem_cons_self ..)]
      · intro s hs'
        rw [ne_eq, habsent, hmember] at hs'
        rw [ne_eq, habsent]
        exact fun hnone => hs' (by rw [hnone, ite_self])

theorem reapLost_lostSessions (hb : d.broker.Coherent) : d.reapLost.broker.lostSessions = [] :=
  reapRounds_lostSessions hb (Nat.le_refl _)

theorem reapLost_of_none_lost (hlost : d.broker.lostSessions = []) : d.reapLost = d := by
  unfold reapLost
  cases d.broker.sessions.size with
  | zero => rfl
  | succ rounds =>
    unfold reapRounds
    rw [hlost]

theorem step_lostSessions (hb : d.broker.Coherent) (hlost : d.broker.lostSessions = [])
    (hrunning : (d.step e).running = true) : (d.step e).broker.lostSessions = [] := by
  cases hd : d.running with
  | false =>
    rw [step_of_stopped hd]
    exact hlost
  | true =>
    unfold step at hrunning ⊢
    rw [hd] at hrunning ⊢
    cases e with
    | accept uid => exact reapLost_lostSessions (turn_accept hb uid).coherent
    | frame channel m => exact reapLost_lostSessions (turn_handleFrame hb channel m).coherent
    | hangUp channel => exact reapLost_lostSessions (turn_close hb channel).coherent
    | gate gate m => exact reapLost_lostSessions (turn_handleGate hb gate m).coherent
    | drain channel count => exact hlost
    | writeFailed channel => exact hlost
    | shutdown order waiting => cases hrunning

theorem lostSessions_run (settings : DaemonSettings) (events : List (DaemonEvent γ))
    (hrunning : ((new settings).run events).running = true) :
    ((new settings).run events).broker.lostSessions = [] := by
  refine run_induction (I := fun _ d => d.running = true → d.broker.lostSessions = [])
    (fun _ => rfl) (fun {events} e ih hrunning => ?_) events hrunning
  have hb := coherent_run settings events
  cases hd : ((new settings).run events).running with
  | false =>
    rw [step_of_stopped hd, hd] at hrunning
    cases hrunning
  | true => exact step_lostSessions hb (ih hd) hrunning

end Daemon

end Arbiter
