import Mathlib.Data.List.Nodup
import Arbiter.Broker.Session

/-!
How long a session remembers what it settled. The queue and the set of settled tokens hold the same
tokens, none twice and no more than there is room for. A token just settled stays until as many
others have been settled as there is room for, unless the session is asked under it anew.
-/

namespace Arbiter

namespace Settled

variable {s : Settled} {token token' : UInt64} {n : Nat}

/-- The queue and the set agree, and the queue keeps to its bound. -/
structure Sound (s : Settled) : Prop where
  bounded : s.order.length ≤ s.capacity
  nodup : s.order.Nodup
  agrees {token : UInt64} : s.contains token = true ↔ token ∈ s.order

theorem sound_empty (capacity : Nat) : (empty capacity).Sound where
  bounded := Nat.zero_le capacity
  nodup := List.nodup_nil
  agrees := by simp [empty, contains, Table.contains]

theorem capacity_evict (capacity : Nat) (members : Table UInt64 Unit) (order : List UInt64) :
    (evict capacity members order).capacity = capacity := by
  induction order generalizing members with
  | nil => rfl
  | cons oldest order ih =>
    unfold evict
    split
    · exact ih _
    · rfl

theorem order_evict (capacity : Nat) (members : Table UInt64 Unit) (order : List UInt64) :
    (evict capacity members order).order = order.drop (order.length - capacity) := by
  induction order generalizing members with
  | nil => exact List.drop_nil.symm
  | cons oldest order ih =>
    unfold evict
    split
    · have hexcess : (oldest :: order).length - capacity = order.length - capacity + 1 := by
        rw [List.length_cons]
        omega
      rw [hexcess, List.drop_succ_cons]
      exact ih _
    · have hfits : (oldest :: order).length - capacity = 0 := by
        rw [List.length_cons]
        omega
      rw [hfits, List.drop_zero]

theorem contains_of_evict {capacity : Nat} {members : Table UInt64 Unit} {order : List UInt64}
    (h : (evict capacity members order).contains token = true) :
    members.contains token = true := by
  induction order generalizing members with
  | nil => exact h
  | cons oldest order ih =>
    unfold evict at h
    split at h
    · exact ((members.contains_erase ..).mp (ih h)).1
    · exact h

theorem contains_evict {capacity : Nat} {members : Table UInt64 Unit} {order : List UInt64}
    (hnodup : order.Nodup) (hagrees : ∀ token, members.contains token = true ↔ token ∈ order) :
    (evict capacity members order).contains token = true ↔
      token ∈ (evict capacity members order).order := by
  induction order generalizing members with
  | nil => exact hagrees token
  | cons oldest order ih =>
    rw [List.nodup_cons] at hnodup
    unfold evict
    split
    · refine ih hnodup.2 fun token => ?_
      rw [members.contains_erase, hagrees, List.mem_cons]
      constructor
      · rintro ⟨rfl | hmem, hne⟩
        · exact absurd rfl hne
        · exact hmem
      · intro hmem
        exact ⟨.inr hmem, fun h => hnodup.1 (h ▸ hmem)⟩
    · exact hagrees token

theorem capacity_insert (s : Settled) (token : UInt64) :
    (s.insert token).capacity = s.capacity := by
  unfold insert
  split
  · rfl
  · exact capacity_evict ..

theorem capacity_forget (s : Settled) (token : UInt64) :
    (s.forget token).capacity = s.capacity := by
  unfold forget
  split <;> rfl

theorem insert_of_contains (h : s.contains token = true) : s.insert token = s :=
  if_pos (.inr h)

theorem order_insert (hpos : 0 < s.capacity) (hnew : s.contains token = false) :
    (s.insert token).order = (s.order ++ [token]).drop (s.order.length + 1 - s.capacity) := by
  have hroom : ¬(s.capacity = 0 ∨ s.contains token = true) := by
    rw [hnew]
    rintro (h | h)
    · omega
    · cases h
  unfold insert
  rw [if_neg hroom, order_evict, List.length_append, List.length_singleton]

theorem order_forget (hs : s.Sound) (token : UInt64) :
    (s.forget token).order = s.order.filter (· ≠ token) := by
  unfold forget
  split
  · rfl
  · rename_i hnot
    refine (List.filter_eq_self.mpr fun token' hmem => ?_).symm
    rw [decide_eq_true_eq]
    rintro rfl
    exact hnot (hs.agrees.mpr hmem)

theorem of_insert (h : (s.insert token').contains token = true) :
    s.contains token = true ∨ token' = token := by
  unfold insert at h
  split at h
  · exact .inl h
  · have hmember := contains_of_evict h
    exact ((s.members.contains_insert ..).mp hmember).imp_right Eq.symm

theorem of_forget (h : (s.forget token').contains token = true) : s.contains token = true := by
  unfold forget at h
  split at h
  · exact ((s.members.contains_erase ..).mp h).1
  · exact h

theorem not_contains_forget (s : Settled) (token : UInt64) :
    (s.forget token).contains token = false := by
  rw [Bool.eq_false_iff]
  intro h
  unfold forget at h
  split at h
  · exact ((s.members.contains_erase ..).mp h).2 rfl
  · contradiction

theorem Sound.insert (hs : s.Sound) (token : UInt64) : (s.insert token).Sound := by
  by_cases hkeep : s.capacity = 0 ∨ s.contains token = true
  · have hsame : s.insert token = s := if_pos hkeep
    rwa [hsame]
  · have hinsert : s.insert token =
        evict s.capacity (s.members.insert token ()) (s.order ++ [token]) := if_neg hkeep
    have hnodup : (s.order ++ [token]).Nodup := by
      refine List.nodup_append.mpr ⟨hs.nodup, List.nodup_singleton token, ?_⟩
      intro old hold new hnew hsame
      rw [hsame, List.mem_singleton.mp hnew] at hold
      exact hkeep (.inr (hs.agrees.mpr hold))
    have hagrees (k : UInt64) :
        (s.members.insert token ()).contains k = true ↔ k ∈ s.order ++ [token] := by
      rw [s.members.contains_insert, List.mem_append, List.mem_singleton]
      exact or_congr_left hs.agrees
    rw [hinsert]
    refine ⟨?_, ?_, contains_evict hnodup hagrees⟩
    · rw [order_evict, capacity_evict, List.length_drop]
      omega
    · rw [order_evict]
      exact hnodup.sublist (List.drop_sublist ..)

theorem Sound.forget (hs : s.Sound) (token : UInt64) : (s.forget token).Sound := by
  have horder := order_forget hs token
  refine ⟨?_, ?_, fun {k} => ?_⟩
  · rw [horder, capacity_forget]
    exact Nat.le_trans (List.length_filter_le ..) hs.bounded
  · rw [horder]
    exact hs.nodup.filter _
  · rw [horder, List.mem_filter, decide_eq_true_eq, ← hs.agrees]
    unfold Settled.forget
    split
    · exact s.members.contains_erase ..
    · rename_i hnot
      refine ⟨fun hk => ⟨hk, ?_⟩, And.left⟩
      rintro rfl
      exact hnot hk

def Recalls (s : Settled) (token : UInt64) (n : Nat) : Prop :=
  ∃ older newer, s.order = older ++ token :: newer ∧ newer.length ≤ n

theorem Recalls.contains (hs : s.Sound) (h : s.Recalls token n) : s.contains token = true := by
  obtain ⟨older, newer, horder, -⟩ := h
  rw [hs.agrees, horder]
  exact List.mem_append_right _ (List.mem_cons_self ..)

theorem recalls_insert (hs : s.Sound) (hpos : 0 < s.capacity) (hnew : s.contains token = false) :
    (s.insert token).Recalls token 0 := by
  have hbounded := hs.bounded
  have hexcess : s.order.length + 1 - s.capacity ≤ s.order.length := by omega
  refine ⟨s.order.drop (s.order.length + 1 - s.capacity), [], ?_, Nat.le_refl 0⟩
  rw [order_insert hpos hnew, List.drop_append_of_le_length hexcess]

theorem Recalls.insert (hs : s.Sound) (h : s.Recalls token n) (hroom : n + 1 < s.capacity)
    (token' : UInt64) : (s.insert token').Recalls token (n + 1) := by
  -- One more token costs a place, not the token, while there is room behind it.
  obtain ⟨older, newer, horder, hnewer⟩ := h
  cases hcontains : s.contains token' with
  | true =>
    rw [insert_of_contains hcontains]
    exact ⟨older, newer, horder, Nat.le_succ_of_le hnewer⟩
  | false =>
    have hbounded := hs.bounded
    have hlength : s.order.length = older.length + (newer.length + 1) := by
      rw [horder, List.length_append, List.length_cons]
    have hexcess : s.order.length + 1 - s.capacity ≤ older.length := by omega
    refine ⟨older.drop (s.order.length + 1 - s.capacity), newer ++ [token'], ?_, ?_⟩
    · rw [order_insert (by omega) hcontains]
      conv_lhs => rw [horder]
      rw [List.append_assoc, List.cons_append, ← horder, List.drop_append_of_le_length hexcess]
    · rw [List.length_append, List.length_singleton]
      omega

theorem Recalls.forget (hs : s.Sound) (h : s.Recalls token n) (hne : token' ≠ token) :
    (s.forget token').Recalls token n := by
  obtain ⟨older, newer, horder, hnewer⟩ := h
  refine ⟨older.filter (· ≠ token'), newer.filter (· ≠ token'), ?_,
    Nat.le_trans (List.length_filter_le ..) hnewer⟩
  rw [order_forget hs, horder, List.filter_append, List.filter_cons, if_pos]
  exact decide_eq_true hne.symm

end Settled

/-- What a session can be told that matters to its memory: it is asked under a token, or told how
the event with the token ended. -/
inductive Mention where
  | asked (token : UInt64)
  | told (token : UInt64)
deriving DecidableEq

def Mention.isTold : Mention → Bool
  | asked _ => false
  | told _ => true

/-- What came to a session, the latest last, and what it has pending and settled by then. It is
asked only under a token that does not wait, and told only of one that does. -/
inductive Memoir (capacity : Nat) :
    List Mention → Table UInt64 InstanceId → Settled → Prop where
  | opened : Memoir capacity [] .empty (.empty capacity)
  | asked {log pending settled token} (i : InstanceId) (h : Memoir capacity log pending settled)
      (hfree : pending.get? token = none) :
      Memoir capacity (log ++ [.asked token]) (pending.insert token i) (settled.forget token)
  | told {log pending settled token i} (h : Memoir capacity log pending settled)
      (hwaits : pending.get? token = some i) :
      Memoir capacity (log ++ [.told token]) (pending.erase token) (settled.insert token)

namespace Memoir

variable {capacity : Nat} {log earlier later : List Mention} {pending : Table UInt64 InstanceId}
  {settled : Settled} {token : UInt64} {i : InstanceId}

theorem sound (h : Memoir capacity log pending settled) : settled.Sound := by
  induction h with
  | opened => exact Settled.sound_empty capacity
  | asked _ _ _ ih => exact ih.forget _
  | told _ _ ih => exact ih.insert _

theorem capacity_eq (h : Memoir capacity log pending settled) : settled.capacity = capacity := by
  induction h with
  | opened => rfl
  | asked _ _ _ ih => exact (Settled.capacity_forget ..).trans ih
  | told _ _ ih => exact (Settled.capacity_insert ..).trans ih

theorem unsettled (h : Memoir capacity log pending settled) (hwaits : pending.get? token = some i) :
    settled.contains token = false := by
  rw [Bool.eq_false_iff]
  intro hsettled
  induction h with
  | opened => cases hwaits
  | @asked log pending settled token' j _ _ ih =>
    rw [Table.get?_insert] at hwaits
    split at hwaits
    · subst token'
      rw [Settled.not_contains_forget] at hsettled
      cases hsettled
    · exact ih hwaits (Settled.of_forget hsettled)
  | told _ _ ih =>
    rw [Table.get?_erase] at hwaits
    split at hwaits
    · cases hwaits
    · rename_i hne
      exact (Settled.of_insert hsettled).elim (ih hwaits) fun heq => hne heq.symm

theorem mem_asked (h : Memoir capacity log pending settled)
    (hknown : pending.get? token ≠ none ∨ settled.contains token = true) :
    .asked token ∈ log := by
  induction h with
  | opened => simp [Settled.empty, Settled.contains, Table.contains] at hknown
  | @asked log pending settled token' j _ _ ih =>
    rw [Table.get?_insert] at hknown
    by_cases htoken : token = token'
    · rw [htoken]
      exact List.mem_append_right _ (List.mem_singleton_self _)
    · rw [if_neg htoken] at hknown
      exact List.mem_append_left _ (ih (hknown.imp_right Settled.of_forget))
  | @told log pending settled token' j _ hwaits ih =>
    rw [Table.get?_erase] at hknown
    refine List.mem_append_left _ (ih ?_)
    rcases hknown with hpending | hsettled
    · refine .inl fun hnone => hpending ?_
      rw [hnone, ite_self]
    · rcases Settled.of_insert hsettled with hsettled | rfl
      · exact .inr hsettled
      · rw [hwaits]
        exact .inl (Option.some_ne_none j)

theorem snoc_eq_append_cons {α : Type} {log earlier later : List α} {a b : α}
    (h : log ++ [a] = earlier ++ b :: later) :
    later = [] ∧ log = earlier ∧ a = b ∨
      ∃ before, later = before ++ [a] ∧ log = earlier ++ b :: before := by
  rcases later.eq_nil_or_concat with rfl | ⟨before, last, rfl⟩
  · obtain ⟨hlog, hlast⟩ := List.append_inj' h rfl
    exact .inl ⟨rfl, hlog, List.singleton_inj.mp hlast⟩
  · rw [List.concat_eq_append, ← List.cons_append, ← List.append_assoc] at h
    obtain ⟨hlog, hlast⟩ := List.append_inj' h rfl
    refine .inr ⟨before, ?_, hlog⟩
    rw [List.concat_eq_append, hlast]

theorem recalls (h : Memoir capacity log pending settled)
    (hlog : log = earlier ++ .told token :: later) (hfresh : .asked token ∉ later)
    (hfew : later.countP Mention.isTold < capacity) :
    settled.Recalls token (later.countP Mention.isTold) := by
  induction h generalizing later with
  | opened => simp at hlog
  | @asked log pending settled token' j hmemoir _ ih =>
    rcases snoc_eq_append_cons hlog with ⟨-, -, hmention⟩ | ⟨before, rfl, hbefore⟩
    · cases hmention
    · rw [List.mem_append, not_or, List.mem_singleton] at hfresh
      have hcount : (before ++ [Mention.asked token']).countP Mention.isTold =
          before.countP Mention.isTold := List.countP_append
      rw [hcount] at hfew ⊢
      refine (ih hbefore hfresh.1 hfew).forget hmemoir.sound ?_
      rintro rfl
      exact hfresh.2 rfl
  | @told log pending settled token' j hmemoir hwaits ih =>
    have hsound := hmemoir.sound
    have hcapacity := hmemoir.capacity_eq
    rcases snoc_eq_append_cons hlog with ⟨rfl, -, hmention⟩ | ⟨before, rfl, hbefore⟩
    · obtain rfl := Mention.told.inj hmention
      exact Settled.recalls_insert hsound (hcapacity ▸ hfew) (hmemoir.unsettled hwaits)
    · rw [List.mem_append, not_or] at hfresh
      have hcount : (before ++ [Mention.told token']).countP Mention.isTold =
          before.countP Mention.isTold + 1 := List.countP_append
      rw [hcount] at hfew ⊢
      have hrecalls := ih hbefore hfresh.1 (Nat.lt_of_succ_lt hfew)
      exact hrecalls.insert hsound (hcapacity ▸ hfew) token'

theorem late (h : Memoir capacity log pending settled)
    (hlog : log = earlier ++ .told token :: later) (hfresh : .asked token ∉ later)
    (hfew : later.countP Mention.isTold < capacity) :
    pending.get? token = none ∧ settled.contains token = true := by
  have hcontains := (h.recalls hlog hfresh hfew).contains h.sound
  refine ⟨Option.eq_none_iff_forall_ne_some.mpr fun i hwaits => ?_, hcontains⟩
  rw [h.unsettled hwaits] at hcontains
  cases hcontains

end Memoir

end Arbiter
