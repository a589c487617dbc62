import Arbiter.Message.Buffer
import Arbiter.Word

/-!
Bounds in words of sixty-four bits, as they come from callers and from messages. A sum that no word
can hold is refused or stays at the greatest word, so it never wraps around to a place that exists.
-/

namespace Arbiter

/-- A field whose place and width are words. -/
structure WordField where
  offset : UInt64
  size : UInt64
deriving DecidableEq

def WordField.stop (f : WordField) : UInt64 := Word.addSaturating f.offset f.size

namespace Message

def wordSize (m : Message) : UInt64 := UInt64.ofNat m.size

def wordBodySize (m : Message) : UInt64 :=
  if m.wordSize < 4 then 0 else m.wordSize - 4

def fieldFits (m : Message) (f : WordField) : Bool :=
  (Word.add? f.stop 4).any (· ≤ m.wordSize)

def lengthAtLeast (m : Message) (n : Int64) : Bool :=
  0 ≤ n && n.toUInt64 ≤ 100000 && (Word.add? n.toUInt64 4).any (· ≤ m.wordSize)

/-- Where `count` bytes from `start` on end in the region at `base`, if they lie in it. -/
def regionEnd? (m : Message) (base start count : UInt64) : Option UInt64 := do
  let stop ← Word.add? (← Word.add? base start) count
  if stop ≤ 100000 ∧ stop ≤ m.wordBodySize then some stop else none

def bufferFits (m : Message) (base start count : UInt64) : Bool :=
  (m.regionEnd? base start count).isSome

def regionAt? (m : Message) (base start count : UInt64) : Option Bytes :=
  (m.regionEnd? base start count).map fun stop => m.slice (stop - count).toNat count.toNat

def fieldAt? (m : Message) (f : WordField) : Option Bytes :=
  if m.fieldFits f then some (m.slice f.offset.toNat f.size.toNat) else none

/-- The number in a field, if the field has the width asked for. -/
def natAt? (m : Message) (width : Nat) (f : WordField) : Option Nat :=
  (m.fieldAt? f).bind fun bytes =>
    if bytes.length = width then some (BigEndian.decode bytes) else none

def readU32? (m : Message) (f : WordField) : Option UInt32 := (m.natAt? 4 f).map UInt32.ofNat

def readI32? (m : Message) (f : WordField) : Option Int32 := (m.readU32? f).map UInt32.toInt32

def readU64? (m : Message) (f : WordField) : Option UInt64 := (m.natAt? 8 f).map UInt64.ofNat

/-- A field relative to a record that starts `start` bytes into the region at `base`. -/
def readU32At? (m : Message) (base start : UInt64) (f : WordField) : Option UInt32 := do
  m.readU32? ⟨← Word.add? (← Word.add? base start) f.offset, f.size⟩

end Message

end Arbiter
