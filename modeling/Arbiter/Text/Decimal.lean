/-!
Decimal numbers as plain digits with at most one sign before them, and nothing else.
-/

namespace Arbiter.Decimal

def addDigit? (n : Nat) (c : Char) : Option Nat :=
  if c.isDigit then some (n * 10 + (c.toNat - 48)) else none

def digits? : List Char → Option Nat
  | [] => none
  | cs => cs.foldlM addDigit? 0

def nat? (text : String) : Option Nat :=
  match text.toList with
  | '+' :: cs => digits? cs
  | cs => digits? cs

def int? (text : String) : Option Int :=
  match text.toList with
  | '-' :: cs => (digits? cs).map fun n => -(n : Int)
  | '+' :: cs => (digits? cs).map Int.ofNat
  | cs => (digits? cs).map Int.ofNat

end Arbiter.Decimal
