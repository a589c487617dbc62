import Arbiter.BigEndian

/-!
Hexadecimal text of bytes and numbers: written in lower case, read in either.
-/

namespace Arbiter.Hex

def digit (n : Nat) : Char := Nat.digitChar (n % 16)

def encode (bytes : Bytes) : String :=
  String.ofList (bytes.flatMap fun b => [digit (b.toNat / 16), digit b.toNat])

def value? (c : Char) : Option Nat :=
  if '0' ≤ c ∧ c ≤ '9' then some (c.toNat - 48)
  else if 'a' ≤ c ∧ c ≤ 'f' then some (c.toNat - 87)
  else if 'A' ≤ c ∧ c ≤ 'F' then some (c.toNat - 55)
  else none

/-- The bytes of pairs of digits, after those already read, the latest first. -/
def decodePairs? : List Char → Bytes → Option Bytes
  | [], done => some done.reverse
  | [_], _ => none
  | high :: low :: rest, done =>
    (value? high).bind fun a => (value? low).bind fun b =>
      decodePairs? rest (UInt8.ofNat (16 * a + b) :: done)

def decode? (text : String) : Option Bytes := decodePairs? text.toList []

/-- The number in hexadecimal after a mark, with leading zeros up to `width` digits. -/
def number (width n : Nat) : String :=
  let digits := Nat.toDigits 16 n
  "0x" ++ String.ofList (List.replicate (width - digits.length) '0' ++ digits)

end Arbiter.Hex
