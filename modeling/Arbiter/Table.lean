/-!
Finite maps that remember the order in which their keys arrived. A key occurs once; replacing a
value keeps its place.
-/

namespace Arbiter

structure Table (κ α : Type) where
  entries : List (κ × α)
  nodup : (entries.map Prod.fst).Nodup

namespace Table

variable {κ α : Type}

def empty : Table κ α := ⟨[], by simp⟩

instance : Inhabited (Table κ α) := ⟨empty⟩

def keys (t : Table κ α) : List κ := t.entries.map Prod.fst

def values (t : Table κ α) : List α := t.entries.map Prod.snd

def size (t : Table κ α) : Nat := t.entries.length

def isEmpty (t : Table κ α) : Bool := t.entries.isEmpty

variable [DecidableEq κ]

def get? (t : Table κ α) (k : κ) : Option α := (t.entries.find? (·.1 = k)).map Prod.snd

def contains (t : Table κ α) (k : κ) : Bool := (t.get? k).isSome

def erase (t : Table κ α) (k : κ) : Table κ α :=
  ⟨t.entries.filter (·.1 ≠ k), t.nodup.sublist (List.filter_sublist.map _)⟩

/-- The value of a key changed by a function, if the key is there. -/
def modify (t : Table κ α) (k : κ) (f : α → α) : Table κ α :=
  ⟨t.entries.map fun e => if e.1 = k then (e.1, f e.2) else e, by
    have h : (Prod.fst ∘ fun e : κ × α => if e.1 = k then (e.1, f e.2) else e) = Prod.fst := by
      funext e
      simp only [Function.comp]
      split <;> rfl
    rw [List.map_map, h]
    exact t.nodup⟩

theorem get?_eq_none {t : Table κ α} {k : κ} : t.get? k = none ↔ k ∉ t.keys := by
  simp only [get?, keys, Option.map_eq_none_iff, List.find?_eq_none, decide_eq_true_eq,
    List.mem_map, not_exists, not_and]

def insert (t : Table κ α) (k : κ) (a : α) : Table κ α :=
  if h : k ∈ t.keys then t.modify k fun _ => a
  else ⟨t.entries ++ [(k, a)], by
    simp only [List.map_append, List.map_cons, List.map_nil]
    refine List.nodup_append.mpr ⟨t.nodup, by simp, ?_⟩
    intro x hx y hy hxy
    simp only [List.mem_singleton] at hy
    exact h (by simpa [keys, ← hy, ← hxy] using hx)⟩

theorem get?_eq_some {t : Table κ α} {k : κ} {a : α} : t.get? k = some a ↔ (k, a) ∈ t.entries := by
  obtain ⟨entries, nodup⟩ := t
  simp only [get?]
  induction entries with
  | nil => simp
  | cons e entries ih =>
    have hnd : e.1 ∉ entries.map Prod.fst ∧ (entries.map Prod.fst).Nodup := by simpa using nodup
    by_cases he : e.1 = k
    · have hnot : (k, a) ∉ entries := fun hmem => hnd.1 (he ▸ List.mem_map_of_mem (f := Prod.fst) hmem)
      simp [he, hnot, Prod.ext_iff, eq_comm]
    · have hne : ¬ (k, a) = e := fun h => he (h ▸ rfl)
      simp [he, hne, ih hnd.2]

@[simp] theorem get?_empty (k : κ) : (empty : Table κ α).get? k = none := rfl

theorem get?_erase (t : Table κ α) (k k' : κ) :
    (t.erase k).get? k' = if k' = k then none else t.get? k' := by
  ext a
  rw [get?_eq_some]
  split
  · rename_i h
    simp [erase, h]
  · rename_i h
    simp [erase, get?_eq_some, h]

theorem get?_modify (t : Table κ α) (k k' : κ) (f : α → α) :
    (t.modify k f).get? k' = if k' = k then (t.get? k').map f else t.get? k' := by
  ext a
  rw [get?_eq_some]
  split
  · rename_i h
    subst h
    simp only [modify, List.mem_map, Option.map_eq_some_iff, get?_eq_some]
    constructor
    · rintro ⟨⟨x, b⟩, hmem, hx⟩
      by_cases h : x = k'
      · simp only [h, ↓reduceIte, Prod.mk.injEq, true_and] at hx
        exact ⟨b, h ▸ hmem, hx⟩
      · simp [h] at hx
    · rintro ⟨b, hmem, rfl⟩
      exact ⟨(k', b), hmem, by simp⟩
  · rename_i h
    simp only [modify, List.mem_map, get?_eq_some]
    constructor
    · rintro ⟨⟨x, b⟩, hmem, hx⟩
      by_cases hxk : x = k
      · simp only [hxk, ↓reduceIte, Prod.mk.injEq] at hx
        exact absurd hx.1.symm h
      · simp only [hxk, ↓reduceIte] at hx
        exact hx ▸ hmem
    · intro hmem
      exact ⟨(k', a), hmem, by simp [h]⟩

/-- What a change leaves alone is the same before and after it. -/
theorem map_get?_modify {β : Type} (t : Table κ α) (k k' : κ) {f : α → α} {g : α → β}
    (h : ∀ a, g (f a) = g a) : ((t.modify k f).get? k').map g = (t.get? k').map g := by
  rw [get?_modify]
  split
  · rw [Option.map_map, funext (f := g ∘ f) (g := g) h]
  · rfl

theorem get?_modify_of_get? {t : Table κ α} {k : κ} {a : α} (h : t.get? k = some a) (f : α → α)
    (k' : κ) : (t.modify k f).get? k' = if k' = k then some (f a) else t.get? k' := by
  rw [get?_modify]
  split
  · rename_i hk
    rw [hk, h, Option.map_some]
  · rfl

theorem get?_insert (t : Table κ α) (k k' : κ) (a : α) :
    (t.insert k a).get? k' = if k' = k then some a else t.get? k' := by
  unfold insert
  split
  · rename_i hk
    rw [get?_modify]
    split
    · rename_i h
      obtain ⟨b, hb⟩ : ∃ b, t.get? k' = some b := by
        apply Option.ne_none_iff_exists'.mp
        rw [ne_eq, get?_eq_none, h]
        exact not_not_intro hk
      simp [hb]
    · rfl
  · rename_i hk
    ext b
    rw [get?_eq_some]
    split
    · rename_i h
      have hnot : ∀ c, (k, c) ∉ t.entries := fun c hc =>
        hk (List.mem_map_of_mem (f := Prod.fst) hc)
      simp [h, hnot, eq_comm]
    · rename_i h
      simp [get?_eq_some, h]

theorem entries_insert (t : Table κ α) (k : κ) (a : α) (h : t.get? k = none) :
    (t.insert k a).entries = t.entries ++ [(k, a)] := by
  simp only [insert, dif_neg (get?_eq_none.mp h)]

theorem contains_insert (t : Table κ α) (k k' : κ) (a : α) :
    (t.insert k a).contains k' = true ↔ t.contains k' = true ∨ k' = k := by
  unfold contains
  rw [get?_insert]
  split <;> simp [*]

theorem contains_erase (t : Table κ α) (k k' : κ) :
    (t.erase k).contains k' = true ↔ t.contains k' = true ∧ k' ≠ k := by
  unfold contains
  rw [get?_erase]
  split <;> simp [*]

end Table

end Arbiter
