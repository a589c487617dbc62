import Arbiter.Sha256
import Arbiter.Message.Fault

/-!
A message as bytes. The first four bytes declare the length of the whole, the next four are the
opcode, and the last four, the trailer, are the first word of the digest of all before them. Fields
and regions lie before the trailer; every read states whether its bytes are there.
-/

namespace Arbiter

structure Field where
  offset : Nat
  size : Nat
deriving DecidableEq, Repr

structure Message where
  bytes : Array UInt8
deriving DecidableEq, Inhabited

namespace Message

def headerSize : Nat := 8

def trailerSize : Nat := 4

def minSize : Nat := headerSize + trailerSize

def maxSize : Nat := 100000

def lengthField : Field := ⟨0, 4⟩

def opcodeField : Field := ⟨4, 4⟩

def ofBytes (bytes : Bytes) : Message := ⟨bytes.toArray⟩

def toBytes (m : Message) : Bytes := m.bytes.toList

def size (m : Message) : Nat := m.bytes.size

def bodySize (m : Message) : Nat := m.size - trailerSize

/-- The bytes from `start` on, at most `count` of them. -/
def slice (m : Message) (start count : Nat) : Bytes :=
  (m.bytes.extract start (start + count)).toList

theorem slice_eq (m : Message) (start count : Nat) :
    m.slice start count = (m.toBytes.drop start).take count := by
  simp [slice, toBytes, List.extract_eq_take_drop]

def HasField (m : Message) (f : Field) : Prop := f.offset + f.size + trailerSize ≤ m.size

instance (m : Message) (f : Field) : Decidable (m.HasField f) :=
  inferInstanceAs (Decidable (_ ≤ _))

def HasBody (m : Message) (n : Int) : Prop := 0 ≤ n ∧ n ≤ maxSize ∧ n + trailerSize ≤ m.size

instance (m : Message) (n : Int) : Decidable (m.HasBody n) :=
  inferInstanceAs (Decidable (_ ∧ _ ∧ _))

def HasRegion (m : Message) (base start count : Nat) : Prop :=
  base + start + count ≤ maxSize ∧ base + start + count ≤ m.bodySize

instance (m : Message) (base start count : Nat) : Decidable (m.HasRegion base start count) :=
  inferInstanceAs (Decidable (_ ∧ _))

def region? (m : Message) (base start count : Nat) : Option Bytes :=
  if m.HasRegion base start count then some (m.slice (base + start) count) else none

/-- The body from `base` up to the trailer. -/
def tail? (m : Message) (base : Nat) : Option Bytes :=
  if base ≤ m.bodySize then some (m.slice base (m.bodySize - base)) else none

def field? (m : Message) (f : Field) : Option Bytes :=
  if m.HasField f then some (m.slice f.offset f.size) else none

def nat? (m : Message) (width : Nat) (f : Field) : Option Nat :=
  if f.size = width then (m.field? f).map BigEndian.decode else none

def u32? (m : Message) (f : Field) : Option UInt32 := (m.nat? 4 f).map UInt32.ofNat

def i32? (m : Message) (f : Field) : Option Int32 := (m.u32? f).map UInt32.toInt32

def u64? (m : Message) (f : Field) : Option UInt64 := (m.nat? 8 f).map UInt64.ofNat

/-- A number of four bytes whose field is given relative to `start`. -/
def u32At? (m : Message) (start : Nat) (f : Field) : Option UInt32 :=
  m.u32? ⟨start + f.offset, f.size⟩

def declaredSize? (m : Message) : Option UInt32 := m.u32? lengthField

def opcode? (m : Message) : Option UInt32 := m.u32? opcodeField

/-- The bytes from `start` on replaced by others, with no check of bounds. -/
def overwrite (m : Message) (start : Nat) (bytes : Bytes) : Message :=
  ⟨m.bytes.extract 0 start ++ bytes.toArray ++ m.bytes.extract (start + bytes.length)⟩

def writeField (m : Message) (f : Field) (bytes : Bytes) : Except Fault Message :=
  if m.HasField f then .ok (m.overwrite f.offset bytes) else .error (.tooShort m.size)

def writeU32 (m : Message) (offset : Nat) (n : UInt32) : Except Fault Message :=
  m.writeField ⟨offset, 4⟩ (u32Bytes n)

def writeI32 (m : Message) (offset : Nat) (n : Int32) : Except Fault Message :=
  m.writeField ⟨offset, 4⟩ (i32Bytes n)

def writeU64 (m : Message) (offset : Nat) (n : UInt64) : Except Fault Message :=
  m.writeField ⟨offset, 8⟩ (u64Bytes n)

/-- Positions are words of sixty-four bits: one past the last of them is too large. -/
def writeRegion (m : Message) (base start : Nat) (bytes : Bytes) : Except Fault Message :=
  if base + start < UInt64.size then m.writeField ⟨base + start, bytes.length⟩ bytes
  else .error (.tooLarge (UInt64.size - 1))

def checkBodySize (n : Nat) : Except Fault Unit :=
  if n < headerSize then .error (.tooShort n)
  else if maxSize < n + trailerSize then .error (.tooLarge n)
  else .ok ()

/-- The message cut or filled with zeros to `n` bytes and a trailer, its length declared anew. -/
def resize (m : Message) (n : Nat) : Except Fault Message :=
  (checkBodySize n).map fun _ =>
    let total := n + trailerSize
    let kept := m.bytes.extract 0 total
    Message.overwrite ⟨kept ++ Array.replicate (total - kept.size) 0⟩ lengthField.offset
      (BigEndian.encode 4 total)

def allocate (n : Nat) : Except Fault Message := resize ⟨#[]⟩ n

def withOpcode (code : UInt32) (n : Nat) : Except Fault Message := do
  (← allocate n).writeU32 opcodeField.offset code

def checksum (bytes : Array UInt8) : UInt32 := (Sha256.digest bytes).a

def trailer (m : Message) : Bytes := m.slice m.bodySize trailerSize

def sealed (m : Message) : Message :=
  if m.size < trailerSize then m
  else
    let body := m.bytes.extract 0 m.bodySize
    ⟨body ++ (u32Bytes (checksum body)).toArray⟩

def Sealed (m : Message) : Prop :=
  minSize ≤ m.size ∧ m.trailer = u32Bytes (checksum (m.bytes.extract 0 m.bodySize))

instance (m : Message) : Decidable m.Sealed := inferInstanceAs (Decidable (_ ∧ _))

end Message

end Arbiter
