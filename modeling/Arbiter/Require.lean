/-!
Two ways to stop a computation with a given error: when a condition fails and when a value is
absent.
-/

namespace Arbiter

universe u

variable {ε α : Type u}

def require (p : Prop) [Decidable p] (e : ε) : Except ε PUnit :=
  if p then .ok ⟨⟩ else .error e

def expect (value : Option α) (e : ε) : Except ε α :=
  match value with
  | some a => .ok a
  | none => .error e

theorem require_eq_ok {p : Prop} [Decidable p] {e : ε} {x : PUnit} : require p e = .ok x ↔ p := by
  unfold require
  split <;> simp [*]

theorem require_of {p : Prop} [Decidable p] (h : p) (e : ε) : require p e = .ok ⟨⟩ :=
  require_eq_ok.mpr h

theorem require_eq_error {p : Prop} [Decidable p] {e e' : ε} :
    require p e = .error e' ↔ ¬p ∧ e = e' := by
  unfold require
  split <;> simp [*]

@[simp] theorem expect_some (a : α) (e : ε) : expect (some a) e = .ok a := rfl

theorem expect_eq_ok {value : Option α} {e : ε} {a : α} :
    expect value e = .ok a ↔ value = some a := by
  cases value <;> simp [expect]

theorem expect_eq_error {value : Option α} {e e' : ε} :
    expect value e = .error e' ↔ value = none ∧ e = e' := by
  cases value <;> simp [expect]

@[simp] theorem ok_bind {β : Type u} (a : α) (f : α → Except ε β) : (Except.ok a >>= f) = f a := rfl

theorem error_bind {β : Type u} (e : ε) (f : α → Except ε β) : (Except.error e >>= f) = .error e :=
  rfl

theorem bind_eq_ok {β : Type u} {x : Except ε α} {f : α → Except ε β} {b : β} :
    (x >>= f) = .ok b ↔ ∃ a, x = .ok a ∧ f a = .ok b := by
  cases x with
  | error e => simp [bind, Except.bind]
  | ok a => simp

theorem bind_eq_error {β : Type u} {x : Except ε α} {f : α → Except ε β} {e : ε} :
    (x >>= f) = .error e ↔ x = .error e ∨ ∃ a, x = .ok a ∧ f a = .error e := by
  cases x with
  | error e' => simp [error_bind]
  | ok a => simp

theorem map_eq_ok {β : Type u} {x : Except ε α} {f : α → β} {b : β} :
    x.map f = .ok b ↔ ∃ a, x = .ok a ∧ f a = b := by
  cases x <;> simp [Except.map]

end Arbiter
