import Mathlib.Algebra.GroupWithZero.Nat
import Mathlib.Data.List.Induction
import Arbiter.Settings.Basic

/-!
Which texts are numbers. A number is written in decimal digits with a sign before them or none; the
minus sign is for types that have negative numbers. A text is read in a type exactly when it writes
a number of that type, so there is one reading at most.
-/

namespace Arbiter

namespace Decimal

/-- The digits, the most significant first, stand for the number. -/
inductive Denotes : List Char → Nat → Prop where
  | single {c} (hc : c.isDigit = true) : Denotes [c] (c.toNat - 48)
  | snoc {cs n c} (h : Denotes cs n) (hc : c.isDigit = true) :
      Denotes (cs ++ [c]) (n * 10 + (c.toNat - 48))

/-- The text writes the number; a minus sign needs a type that is `signed`. -/
inductive Writes (signed : Bool) : List Char → Int → Prop where
  | bare {cs n} (h : Denotes cs n) : Writes signed cs n
  | plus {cs n} (h : Denotes cs n) : Writes signed ('+' :: cs) n
  | minus {cs n} (hsigned : signed = true) (h : Denotes cs n) : Writes signed ('-' :: cs) (-n)

variable {cs : List Char} {n : Nat}

theorem Denotes.ne_nil (h : Denotes cs n) : cs ≠ [] := by
  cases h with
  | single => exact List.cons_ne_nil _ _
  | snoc => exact List.append_ne_nil_of_right_ne_nil _ (List.cons_ne_nil _ _)

theorem Denotes.isDigit (h : Denotes cs n) : ∀ c ∈ cs, c.isDigit = true := by
  induction h with
  | single hc => simpa using hc
  | snoc _ hc ih =>
    intro c hmem
    rcases List.mem_append.mp hmem with hmem | hmem
    · exact ih c hmem
    · exact List.mem_singleton.mp hmem ▸ hc

theorem Denotes.head_ne {c sign : Char} (h : Denotes (c :: cs) n) (hsign : sign.isDigit = false) :
    c ≠ sign := by
  rintro rfl
  rw [h.isDigit c List.mem_cons_self] at hsign
  cases hsign

theorem digits?_singleton (c : Char) :
    digits? [c] = if c.isDigit = true then some (c.toNat - 48) else none := by
  simp [digits?, addDigit?]

theorem digits?_snoc (hne : cs ≠ []) (c : Char) :
    digits? (cs ++ [c]) = (digits? cs).bind (addDigit? · c) := by
  have hcons (cs : List Char) (h : cs ≠ []) : digits? cs = cs.foldlM addDigit? 0 := by
    cases cs with
    | nil => exact absurd rfl h
    | cons => rfl
  rw [hcons cs hne, hcons _ (List.append_ne_nil_of_left_ne_nil hne _), List.foldlM_append]
  simp [Option.bind_eq_bind]

theorem digits?_eq_some : digits? cs = some n ↔ Denotes cs n := by
  constructor
  · induction cs using List.reverseRecOn generalizing n with
    | nil => exact nofun
    | append_singleton cs c ih =>
      intro h
      by_cases hne : cs = []
      · subst hne
        rw [List.nil_append, digits?_singleton, Option.ite_none_right_eq_some] at h
        obtain ⟨hc, hn⟩ := h
        exact Option.some.inj hn ▸ .single hc
      · rw [digits?_snoc hne, Option.bind_eq_some_iff] at h
        obtain ⟨front, hfront, h⟩ := h
        rw [addDigit?, Option.ite_none_right_eq_some] at h
        obtain ⟨hc, hn⟩ := h
        exact Option.some.inj hn ▸ .snoc (ih hfront) hc
  · intro h
    induction h with
    | single hc => rw [digits?_singleton, if_pos hc]
    | snoc h hc ih => rw [digits?_snoc h.ne_nil, ih, Option.bind_some, addDigit?, if_pos hc]

section Texts

variable {text : String}

theorem nat?_eq_some : nat? text = some n ↔ Writes false text.toList n := by
  unfold nat?
  generalize text.toList = written
  split
  · rw [digits?_eq_some]
    constructor
    · exact .plus
    · intro h
      generalize hn : (n : Int) = k at h
      cases h with
      | bare h => exact absurd rfl (h.head_ne (by decide))
      | plus h => exact Int.ofNat.inj hn ▸ h
  · rename_i hplus
    rw [digits?_eq_some]
    constructor
    · exact .bare
    · intro h
      generalize hn : (n : Int) = k at h
      cases h with
      | bare h => exact Int.ofNat.inj hn ▸ h
      | plus => exact absurd rfl (hplus _)
      | minus hsigned => cases hsigned

theorem int?_eq_some {k : Int} : int? text = some k ↔ Writes true text.toList k := by
  unfold int?
  generalize text.toList = written
  split
  · simp only [Option.map_eq_some_iff, Option.bind_eq_bind, Option.bind_eq_some_iff,
      Option.pure_def, Option.some_inj]
    constructor
    · rintro ⟨_, ⟨n, h, rfl⟩, rfl⟩
      exact .minus rfl (digits?_eq_some.mp h)
    · intro h
      cases h with
      | bare h => exact absurd rfl (h.head_ne (by decide))
      | minus _ h => exact ⟨_, ⟨_, digits?_eq_some.mpr h, rfl⟩, rfl⟩
  · rw [Option.map_eq_some_iff]
    constructor
    · rintro ⟨n, h, rfl⟩
      exact .plus (digits?_eq_some.mp h)
    · intro h
      cases h with
      | bare h => exact absurd rfl (h.head_ne (by decide))
      | plus h => exact ⟨_, digits?_eq_some.mpr h, rfl⟩
  · rename_i hminus hplus
    rw [Option.map_eq_some_iff]
    constructor
    · rintro ⟨n, h, rfl⟩
      exact .bare (digits?_eq_some.mp h)
    · intro h
      cases h with
      | bare h => exact ⟨_, digits?_eq_some.mpr h, rfl⟩
      | plus => exact absurd rfl (hplus _)
      | minus => exact absurd rfl (hminus _)

end Texts

end Decimal

theorem Word.int32?_eq_some {n : Int} {k : Int32} : int32? n = some k ↔ k.toInt = n := by
  have hmin : Int32.minValue.toInt = -2 ^ 31 := by decide
  have hmax : Int32.maxValue.toInt = 2 ^ 31 - 1 := by decide
  rw [int32?, Option.ite_none_right_eq_some, hmin, hmax, Option.some_inj]
  constructor
  · rintro ⟨⟨hlow, hhigh⟩, rfl⟩
    exact Int32.toInt_ofInt_of_le hlow (Int.lt_of_le_sub_one hhigh)
  · rintro rfl
    exact ⟨⟨k.le_toInt, Int.le_sub_one_of_lt k.toInt_lt⟩, k.ofInt_toInt⟩

namespace Settings

def WritesCode (text : String) (code : Int32) : Prop :=
  Decimal.Writes true text.toList code.toInt

def WritesSize (text : String) (n : Nat) : Prop :=
  n < 2 ^ 64 ∧ Decimal.Writes false text.toList n

theorem code?_eq_some {text : String} {code : Int32} :
    code? text = some code ↔ WritesCode text code := by
  simp only [code?, WritesCode, Option.bind_eq_some_iff, Decimal.int?_eq_some,
    Word.int32?_eq_some, exists_eq_right']

theorem size?_eq_some {text : String} {n : Nat} : size? text = some n ↔ WritesSize text n := by
  simp only [size?, WritesSize, Option.bind_eq_some_iff, Decimal.nat?_eq_some,
    Option.ite_none_right_eq_some, Option.some_inj]
  constructor
  · rintro ⟨n', hwrites, hlt, rfl⟩
    exact ⟨hlt, hwrites⟩
  · rintro ⟨hlt, hwrites⟩
    exact ⟨n, hwrites, hlt, rfl⟩

end Settings

end Arbiter
