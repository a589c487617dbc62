import Mathlib.Data.List.Flatten
import Mathlib.Data.List.Forall2
import Arbiter.Proofs.Client.Runs
import Arbiter.Proofs.Daemon.Grants

/-!
What a client is yet to report as granted. It depends on the replies on their way to it, of those
only on the ones with code zero, and on the requests that are pending under their tokens.
-/

namespace List.SublistForall₂

variable {α β : Type} {R : α → β → Prop} {l l' : List α} {r r' : List β}

theorem weaken (h : SublistForall₂ R l r) (hsub : l'.Sublist l) : SublistForall₂ R l' r := by
  induction h generalizing l' with
  | nil =>
    rw [sublist_nil.mp hsub]
    exact .nil
  | @cons a b l r hab _ ih =>
    cases hsub with
    | cons _ hsub => exact .cons_right (ih hsub)
    | cons_cons _ hsub => exact .cons hab (ih hsub)
  | cons_right _ ih => exact .cons_right (ih hsub)

theorem append (h : SublistForall₂ R l r) (h' : SublistForall₂ R l' r') :
    SublistForall₂ R (l ++ l') (r ++ r') := by
  obtain ⟨g, hg, hsub⟩ := sublistForall₂_iff.mp h
  obtain ⟨g', hg', hsub'⟩ := sublistForall₂_iff.mp h'
  exact sublistForall₂_iff.mpr ⟨g ++ g', rel_append hg hg', hsub.append hsub'⟩

theorem single {b : β} (hlength : l.length ≤ 1) (h : ∀ a ∈ l, R a b) :
    SublistForall₂ R l [b] := by
  cases l with
  | nil => exact .nil
  | cons a l =>
    obtain rfl : l = [] := length_eq_zero_iff.mp (Nat.le_zero.mp (Nat.succ_le_succ_iff.mp hlength))
    exact .cons (h a (mem_singleton_self a)) .nil

end List.SublistForall₂

namespace Arbiter

namespace Client

variable {c : Client} {m : Message} {acks : List (UInt64 × Int32)}

def due (c : Client) (acks : List (UInt64 × Int32)) : List Notice :=
  acks.flatMap fun ack => (c.conclusion ack.1 ack.2).filter Notice.isGrant

theorem due_append (c : Client) (acks acks' : List (UInt64 × Int32)) :
    c.due (acks ++ acks') = c.due acks ++ c.due acks' :=
  List.flatMap_append

theorem length_conclusion_le (c : Client) (token : UInt64) (error : Int32) :
    (c.conclusion token error).length ≤ 1 := by
  cases hpending : c.pending.get? token with
  | none =>
    rw [conclusion_of_idle error hpending]
    exact Nat.zero_le 1
  | some what =>
    rw [conclusion_of_pending error hpending]
    cases what <;> simp [Request.conclusion]

theorem filter_conclusion {error : Int32} (herror : error ≠ 0) (token : UInt64) :
    (c.conclusion token error).filter Notice.isGrant = [] := by
  cases hpending : c.pending.get? token with
  | none =>
    rw [conclusion_of_idle error hpending]
    rfl
  | some what =>
    rw [conclusion_of_pending error hpending]
    cases what <;> simp [Request.conclusion, herror, Notice.isGrant]

theorem due_asked (what : Request) (h : ∀ ack ∈ acks, ack.2 = 0 → ack.1 ≠ c.nextToken) :
    (c.asked what).due acks = c.due acks := by
  -- A new request does not change what replies under other tokens are taken for.
  refine List.flatMap_congr fun ack hack => ?_
  by_cases herror : ack.2 = 0
  · have hother : (c.asked what).pending.get? ack.1 = c.pending.get? ack.1 :=
      (Table.get?_insert ..).trans (if_neg (h ack hack herror))
    simp only [conclusion, hother]
  · rw [filter_conclusion herror, filter_conclusion herror]

theorem due_settled (i : Nat) (token : UInt64) (version : Option UInt32) :
    ((c.settled i token version).due acks).Sublist (c.due acks) := by
  refine List.Sublist.flatMap_right _ fun ack _ => List.Sublist.filter _ ?_
  have herase : (c.settled i token version).pending.get? ack.1 =
      if ack.1 = token then none else c.pending.get? ack.1 := Table.get?_erase ..
  by_cases htoken : ack.1 = token
  · rw [conclusion_of_idle ack.2 (herase.trans (if_pos htoken))]
    exact List.nil_sublist _
  · rw [conclusion, herase.trans (if_neg htoken)]
    exact List.Sublist.refl _

inductive Ours (c : Client) (issued : List UInt64) (m : Message) : Prop where
  | request {what token} (h : what.Written token m) (htoken : token ∈ issued)
      (hpending : ∀ {what'}, c.pending.get? token = some what' → what' = what)
  | answer {token verdict delegate} (h : Message.answer token verdict delegate = .ok m)

theorem Ours.asked {issued : List UInt64} (h : Ours c issued m) (what : Request)
    (hfresh : c.nextToken ∉ issued) : Ours (c.asked what) (issued ++ [c.nextToken]) m := by
  cases h with
  | @request what' token h htoken hpending =>
    refine .request h (List.mem_append_left _ htoken) fun {what'} hwhat => hpending ?_
    have hne : token ≠ c.nextToken := fun heq => hfresh (heq ▸ htoken)
    rwa [Client.asked, Table.get?_insert, if_neg hne] at hwhat
  | answer h => exact .answer h

theorem Ours.settled {issued : List UInt64} (h : Ours c issued m) (i : Nat) (token : UInt64)
    (version : Option UInt32) : Ours (c.settled i token version) issued m := by
  cases h with
  | request h htoken hpending =>
    refine .request h htoken fun {what'} hwhat => hpending ?_
    rw [Client.settled, Table.get?_erase] at hwhat
    split at hwhat
    · cases hwhat
    · exact hwhat
  | answer h => exact .answer h

theorem unsolicited_notices {reaction : Reaction} (h : unsolicited m = .ok reaction) :
    reaction.send = [] ∧ reaction.notices.filter Notice.isGrant = [] := by
  obtain ⟨hsend, hnotices⟩ := unsolicited_eq_ok h
  refine ⟨hsend, List.filter_eq_nil_iff.mpr fun n hn hgrant => ?_⟩
  exact hnotices n hn (Notice.isConclusion_of_isGrant hgrant)

end Client

end Arbiter
