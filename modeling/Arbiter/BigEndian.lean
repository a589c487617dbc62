/-!
Unsigned numbers as bytes, most significant first. Reading undoes writing up to the width written,
and writing undoes reading.
-/

namespace Arbiter

abbrev Bytes := List UInt8

namespace BigEndian

def encode : Nat → Nat → Bytes
  | 0, _ => []
  | width + 1, n => encode width (n / 256) ++ [UInt8.ofNat (n % 256)]

def decode (bytes : Bytes) : Nat :=
  bytes.foldl (fun n b => n * 256 + b.toNat) 0

/-- How many numbers a width can hold. -/
def capacity : Nat → Nat
  | 0 => 1
  | width + 1 => 256 * capacity width

theorem capacity_pos (width : Nat) : 0 < capacity width := by
  induction width with
  | zero => decide
  | succ width ih => simp only [capacity]; omega

@[simp] theorem length_encode (width n : Nat) : (encode width n).length = width := by
  induction width generalizing n with
  | zero => rfl
  | succ width ih => simp [encode, ih]

@[simp] theorem decode_append_singleton (bytes : Bytes) (b : UInt8) :
    decode (bytes ++ [b]) = decode bytes * 256 + b.toNat := by
  simp [decode, List.foldl_append]

theorem decode_encode (width n : Nat) : decode (encode width n) = n % capacity width := by
  induction width generalizing n with
  | zero => simp [encode, decode, capacity, Nat.mod_one]
  | succ width ih =>
    have hb : (UInt8.ofNat (n % 256)).toNat = n % 256 := by simp
    rw [encode, decode_append_singleton, ih, hb, capacity, Nat.mod_mul]
    omega

theorem encode_decode (bytes : Bytes) : encode bytes.length (decode bytes) = bytes := by
  generalize hn : bytes.length = n
  induction n generalizing bytes with
  | zero => simp [encode, List.eq_nil_of_length_eq_zero hn]
  | succ n ih =>
    have hne : bytes ≠ [] := by intro h; simp [h] at hn
    obtain ⟨front, b, rfl⟩ : ∃ front b, bytes = front ++ [b] :=
      ⟨_, _, (List.dropLast_concat_getLast hne).symm⟩
    have hb : b.toNat < 256 := b.toNat_lt
    have hfront : front.length = n := by simpa using hn
    rw [encode, decode_append_singleton,
      show (decode front * 256 + b.toNat) / 256 = decode front by omega,
      show (decode front * 256 + b.toNat) % 256 = b.toNat by omega, ih front hfront]
    simp

theorem decode_lt (bytes : Bytes) : decode bytes < capacity bytes.length := by
  have h := decode_encode bytes.length (decode bytes)
  rw [encode_decode] at h
  rw [h]
  exact Nat.mod_lt _ (capacity_pos _)

end BigEndian

def u32Bytes (n : UInt32) : Bytes := BigEndian.encode 4 n.toNat

def i32Bytes (n : Int32) : Bytes := u32Bytes n.toUInt32

def u64Bytes (n : UInt64) : Bytes := BigEndian.encode 8 n.toNat

@[simp] theorem length_u32Bytes (n : UInt32) : (u32Bytes n).length = 4 := by simp [u32Bytes]

@[simp] theorem length_i32Bytes (n : Int32) : (i32Bytes n).length = 4 := by simp [i32Bytes]

@[simp] theorem length_u64Bytes (n : UInt64) : (u64Bytes n).length = 8 := by simp [u64Bytes]

end Arbiter
