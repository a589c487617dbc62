import Mathlib.Data.List.Nodup
import Mathlib.Data.Nat.ModEq
import Arbiter.Proofs.Client.Runs

/-!
The tokens that a client gives away. They are counted up from the first one and begin again at one
after the last, so none is given away twice before all of them were.
-/

namespace Arbiter

namespace Client

variable {c : Client} {start : Nat} {tokens : List UInt64} {next : UInt64}

def tokenCount : Nat := UInt64.size - 1

def issued (c c' : Client) : List UInt64 :=
  if c'.nextToken = c.nextToken then [] else [c.nextToken]

structure Numbered (start : Nat) (tokens : List UInt64) (next : UInt64) : Prop where
  next : next.toNat = (start + tokens.length) % tokenCount + 1
  given {i token} : tokens[i]? = some token → token.toNat = (start + i) % tokenCount + 1

theorem advance_toNat (hc : c.nextToken ≠ 0) :
    c.advance.nextToken.toNat = c.nextToken.toNat % tokenCount + 1 := by
  have hlt := c.nextToken.toNat_lt
  have hpos : c.nextToken.toNat ≠ 0 := fun h => hc (UInt64.toNat.inj h)
  have hadd : (c.nextToken + 1).toNat = (c.nextToken.toNat + 1) % 2 ^ 64 := UInt64.toNat_add _ _
  simp only [advance, takeToken, tokenCount, UInt64.size]
  by_cases hlast : c.nextToken.toNat = 2 ^ 64 - 1
  · have hzero : c.nextToken + 1 = 0 := UInt64.toNat.inj (by rw [hadd, hlast]; rfl)
    rw [if_pos hzero, hlast]
    rfl
  · have hnonzero : c.nextToken + 1 ≠ 0 := by
      intro h
      have h := congrArg UInt64.toNat h
      rw [hadd] at h
      change _ = 0 at h
      omega
    rw [if_neg hnonzero, hadd]
    omega

theorem advance_ne (c : Client) : c.advance.nextToken ≠ c.nextToken := by
  simp only [advance, takeToken]
  split
  · rename_i hzero
    intro h
    rw [← h] at hzero
    exact absurd hzero (by decide)
  · intro h
    have h := congrArg UInt64.toNat h
    rw [UInt64.toNat_add] at h
    have hlt := c.nextToken.toNat_lt
    change (c.nextToken.toNat + 1) % 2 ^ 64 = _ at h
    omega

theorem issued_self (c : Client) : c.issued c = [] := if_pos rfl

theorem issued_asked (c : Client) (what : Request) : c.issued (c.asked what) = [c.nextToken] :=
  if_neg c.advance_ne

theorem issued_settled (c : Client) (i : Nat) (token : UInt64) (version : Option UInt32) :
    c.issued (c.settled i token version) = [] :=
  if_pos rfl

namespace Numbered

theorem start_at (h : next ≠ 0) : Numbered (next.toNat - 1) [] next where
  next := by
    have hlt := next.toNat_lt
    have hpos : next.toNat ≠ 0 := fun hzero => h (UInt64.toNat.inj hzero)
    simp only [tokenCount, UInt64.size, List.length_nil]
    omega
  given h := by cases h

theorem advance (h : Numbered start tokens c.nextToken) (hc : c.nextToken ≠ 0) :
    Numbered start (tokens ++ [c.nextToken]) c.advance.nextToken where
  next := by
    rw [advance_toNat hc, h.next, List.length_append, List.length_singleton, ← Nat.add_assoc,
      Nat.mod_add_mod]
  given {i token} hi := by
    rw [List.getElem?_append] at hi
    split at hi
    · exact h.given hi
    · obtain ⟨hlast, rfl⟩ := List.getElem?_eq_some_iff.mp hi
      have hi : i = tokens.length := by
        simp only [List.length_singleton] at hlast
        omega
      simpa [hi] using h.next

theorem nonzero (h : Numbered start tokens next) : 0 ∉ tokens := by
  intro hmem
  obtain ⟨i, hi⟩ := List.mem_iff_getElem?.mp hmem
  exact Nat.succ_ne_zero _ (h.given hi).symm

theorem index_inj {i j : Nat} (h : (start + i) % tokenCount = (start + j) % tokenCount)
    (hi : i < tokenCount) (hj : j < tokenCount) : i = j :=
  (Nat.ModEq.add_left_cancel' start h).eq_of_lt_of_lt hi hj

theorem nodup (h : Numbered start tokens next) (hle : tokens.length ≤ tokenCount) :
    tokens.Nodup := by
  refine List.nodup_iff_getElem?_ne_getElem?.mpr fun i j hij hj heq => ?_
  have hi : i < tokens.length := hij.trans hj
  have hgiven := h.given (List.getElem?_eq_getElem hi)
  rw [h.given (heq.symm.trans (List.getElem?_eq_getElem hi))] at hgiven
  have hji := index_inj (Nat.succ.inj hgiven) (hj.trans_le hle) (hi.trans_le hle)
  omega

theorem not_mem (h : Numbered start tokens next) (hlt : tokens.length < tokenCount) :
    next ∉ tokens := by
  intro hmem
  obtain ⟨i, hi⟩ := List.mem_iff_getElem?.mp hmem
  obtain ⟨hi', -⟩ := List.getElem?_eq_some_iff.mp hi
  have heq : (start + i) % tokenCount = (start + tokens.length) % tokenCount := by
    have hgiven := h.given hi
    have hnext := h.next
    omega
  exact absurd (index_inj heq (hi'.trans hlt) hlt) hi'.ne

theorem unused (h : Numbered start tokens next)
    (hlt : (tokens ++ [next]).length < UInt64.size) : next ∉ tokens := by
  refine h.not_mem ?_
  rw [List.length_append] at hlt
  exact Nat.lt_sub_of_add_lt hlt

end Numbered

end Client

end Arbiter
