import Arbiter.Hex
import Arbiter.Toml.Reader
import Arbiter.Word

/-!
Numbers: integers of 64 bits in four bases, and floats. Single underscores may stand between digits.
-/

namespace Arbiter.Toml.Number

open Reader

def digitIn (base : Nat) (c : Char) : Bool := (Hex.value? c).any (· < base)

def underscored (base : Nat) : Reader (List Char) :=
  many (optional (char '_') *> satisfy (digitIn base))

/-- At least one digit, with leading zeros allowed. -/
def digits (base : Nat) : Reader (List Char) := do
  return (← satisfy (digitIn base)) :: (← underscored base)

/-- Decimal digits without a leading zero. -/
def plainDigits : Reader (List Char) := do
  let first ← satisfy (digitIn 10)
  if first = '0' then return [first] else return first :: (← underscored 10)

def valueOf (base : Nat) (digits : List Char) : Nat :=
  digits.foldl (fun n c => base * n + (Hex.value? c).getD 0) 0

/-- An optional sign; whether it was a minus. -/
def sign : Reader Bool := do
  let s ← optional (satisfy fun c => c = '+' ∨ c = '-')
  return s = some '-'

def prefixed : Reader Int := do
  char '0'
  let base ← (char 'x' *> pure 16) <|> (char 'o' *> pure 8) <|> (char 'b' *> pure 2)
  return valueOf base (← digits base)

def decimal : Reader Int := do
  let negative ← sign
  let n : Int := valueOf 10 (← plainDigits)
  return if negative then -n else n

def integer : Reader Int := do
  let n ← prefixed <|> decimal
  if Word.FitsInt64 n then return n else failure

/-- Halfway from the greatest double to the next power of two. -/
def overflow : Nat := Nat.pow 2 1024 - Nat.pow 2 970

/-- Whether a decimal is beyond all doubles. One of more than 310 digits is, one of at most 300 is
not; between them the decimal is written out. -/
def isInfinite (digits : List Char) (exponent : Int) : Bool :=
  let significant := digits.dropWhile (· = '0')
  let size := (significant.length : Int) + exponent
  if significant.isEmpty ∨ size ≤ 300 then false
  else if 310 < size then true
  else
    let n := valueOf 10 significant
    if 0 ≤ exponent then overflow ≤ n * Nat.pow 10 exponent.toNat
    else overflow * Nat.pow 10 (-exponent).toNat ≤ n

def exponentPart : Reader Int := do
  let _ ← satisfy fun c => c = 'e' ∨ c = 'E'
  let negative ← sign
  let n : Int := valueOf 10 (← digits 10)
  return if negative then -n else n

/-- A float with a fraction, an exponent or both. A positive one must be finite. -/
def finite : Reader Unit := do
  let negative ← sign
  let whole ← plainDigits
  let fraction ← optional (char '.' *> digits 10)
  let exponent ← optional exponentPart
  let places := fraction.getD []
  if fraction.isNone ∧ exponent.isNone then failure
  if ¬negative ∧ isInfinite (whole ++ places) (exponent.getD 0 - places.length) then failure

def float : Reader Unit := finite <|> (sign *> (word "inf" <|> word "nan"))

end Arbiter.Toml.Number
