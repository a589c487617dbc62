import Arbiter.BigEndian

/-!
Text from bytes that need not be valid UTF-8. Each longest run of bytes that begins a character but
cannot go on is read as one replacement character.
-/

namespace Arbiter.Utf8

def replacement : Char := '\ufffd'

/-- A character begun: its bits so far, the bytes it still needs, and the range of the next one. -/
structure Begun where
  bits : Nat
  owed : Nat
  low : Nat
  high : Nat

structure Reader where
  /-- Characters read, the latest first. -/
  chars : List Char
  begun : Option Begun

namespace Reader

def emit (r : Reader) (c : Char) : Reader := ⟨c :: r.chars, none⟩

/-- A byte where a character starts. -/
def start (r : Reader) (b : Nat) : Reader :=
  if b < 0x80 then r.emit (Char.ofNat b)
  else if 0xc2 ≤ b ∧ b ≤ 0xdf then ⟨r.chars, some ⟨b - 0xc0, 1, 0x80, 0xbf⟩⟩
  else if b = 0xe0 then ⟨r.chars, some ⟨0, 2, 0xa0, 0xbf⟩⟩
  else if b = 0xed then ⟨r.chars, some ⟨0xd, 2, 0x80, 0x9f⟩⟩
  else if 0xe1 ≤ b ∧ b ≤ 0xef then ⟨r.chars, some ⟨b - 0xe0, 2, 0x80, 0xbf⟩⟩
  else if b = 0xf0 then ⟨r.chars, some ⟨0, 3, 0x90, 0xbf⟩⟩
  else if 0xf1 ≤ b ∧ b ≤ 0xf3 then ⟨r.chars, some ⟨b - 0xf0, 3, 0x80, 0xbf⟩⟩
  else if b = 0xf4 then ⟨r.chars, some ⟨4, 3, 0x80, 0x8f⟩⟩
  else r.emit replacement

def read (r : Reader) (byte : UInt8) : Reader :=
  let b := byte.toNat
  match r.begun with
  | none => r.start b
  | some c =>
    if c.low ≤ b ∧ b ≤ c.high then
      let bits := c.bits * 64 + (b - 0x80)
      if c.owed ≤ 1 then r.emit (Char.ofNat bits)
      else ⟨r.chars, some ⟨bits, c.owed - 1, 0x80, 0xbf⟩⟩
    else (r.emit replacement).start b

def finish (r : Reader) : List Char :=
  match r.begun with
  | none => r.chars.reverse
  | some _ => (replacement :: r.chars).reverse

end Reader

def decodeLossy (bytes : Bytes) : String :=
  String.ofList (bytes.foldl Reader.read ⟨[], none⟩).finish

end Arbiter.Utf8
