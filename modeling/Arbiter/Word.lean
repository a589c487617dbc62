/-!
Machine words: whole numbers that fit one, and sums that do not wrap around.
-/

namespace Arbiter.Word

def int32? (n : Int) : Option Int32 :=
  if Int32.minValue.toInt ≤ n ∧ n ≤ Int32.maxValue.toInt then some (Int32.ofInt n) else none

def uint32? (n : Int) : Option UInt32 :=
  if 0 ≤ n ∧ n < UInt32.size then some (UInt32.ofNat n.toNat) else none

def FitsInt64 (n : Int) : Prop := Int64.minValue.toInt ≤ n ∧ n ≤ Int64.maxValue.toInt

instance (n : Int) : Decidable (FitsInt64 n) := inferInstanceAs (Decidable (_ ∧ _))

/-- The sum, if a word can hold it: one that wraps around is less than what was added to. -/
def add? (a b : UInt64) : Option UInt64 := if a ≤ a + b then some (a + b) else none

def greatest : UInt64 := 0xffffffffffffffff

def addSaturating (a b : UInt64) : UInt64 := (add? a b).getD greatest

end Arbiter.Word
