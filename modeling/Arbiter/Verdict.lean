/-!
Verdicts on gated events. A code is never negative; zero allows.
-/

namespace Arbiter

structure Verdict where
  code : Int32
  nonneg : 0 ≤ code
deriving DecidableEq

namespace Verdict

def ofCode? (code : Int32) : Option Verdict :=
  if h : 0 ≤ code then some ⟨code, h⟩ else none

def allow : Verdict := ⟨0, by decide⟩

/-- The verdict of an event whose recipients all left without answering. -/
def noDecision : Verdict := ⟨1, by decide⟩

instance : Inhabited Verdict := ⟨noDecision⟩

def text (v : Verdict) : String := toString v.code.toInt

theorem ofCode?_eq_some {code : Int32} {v : Verdict} : ofCode? code = some v ↔ v.code = code := by
  unfold ofCode?
  split
  · simp only [Option.some.injEq]
    exact ⟨fun h => h ▸ rfl, fun h => by cases v; simp_all⟩
  · simp only [reduceCtorEq, false_iff]
    intro h
    exact absurd (h ▸ v.nonneg) ‹_›

@[simp] theorem ofCode?_code (v : Verdict) : ofCode? v.code = some v :=
  ofCode?_eq_some.mpr rfl

end Verdict

end Arbiter
