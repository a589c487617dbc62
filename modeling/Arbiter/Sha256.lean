import Arbiter.BigEndian

/-!
SHA-256. A digest is its eight words; the message is padded to whole blocks of sixteen words with a
one bit, zeros and its length in bits.
-/

namespace Arbiter.Sha256

structure Digest where
  a : UInt32
  b : UInt32
  c : UInt32
  d : UInt32
  e : UInt32
  f : UInt32
  g : UInt32
  h : UInt32
deriving DecidableEq, Repr

namespace Digest

def add (x y : Digest) : Digest :=
  ⟨x.a + y.a, x.b + y.b, x.c + y.c, x.d + y.d, x.e + y.e, x.f + y.f, x.g + y.g, x.h + y.h⟩

def words (x : Digest) : List UInt32 := [x.a, x.b, x.c, x.d, x.e, x.f, x.g, x.h]

def toBytes (x : Digest) : Bytes := x.words.flatMap u32Bytes

end Digest

def initial : Digest :=
  ⟨0x6a09e667, 0xbb67ae85, 0x3c6ef372, 0xa54ff53a, 0x510e527f, 0x9b05688c, 0x1f83d9ab, 0x5be0cd19⟩

def roundConstants : Array UInt32 := #[
  0x428a2f98, 0x71374491, 0xb5c0fbcf, 0xe9b5dba5, 0x3956c25b, 0x59f111f1, 0x923f82a4, 0xab1c5ed5,
  0xd807aa98, 0x12835b01, 0x243185be, 0x550c7dc3, 0x72be5d74, 0x80deb1fe, 0x9bdc06a7, 0xc19bf174,
  0xe49b69c1, 0xefbe4786, 0x0fc19dc6, 0x240ca1cc, 0x2de92c6f, 0x4a7484aa, 0x5cb0a9dc, 0x76f988da,
  0x983e5152, 0xa831c66d, 0xb00327c8, 0xbf597fc7, 0xc6e00bf3, 0xd5a79147, 0x06ca6351, 0x14292967,
  0x27b70a85, 0x2e1b2138, 0x4d2c6dfc, 0x53380d13, 0x650a7354, 0x766a0abb, 0x81c2c92e, 0x92722c85,
  0xa2bfe8a1, 0xa81a664b, 0xc24b8b70, 0xc76c51a3, 0xd192e819, 0xd6990624, 0xf40e3585, 0x106aa070,
  0x19a4c116, 0x1e376c08, 0x2748774c, 0x34b0bcb5, 0x391c0cb3, 0x4ed8aa4a, 0x5b9cca4f, 0x682e6ff3,
  0x748f82ee, 0x78a5636f, 0x84c87814, 0x8cc70208, 0x90befffa, 0xa4506ceb, 0xbef9a3f7, 0xc67178f2]

def rotr (x : UInt32) (n : UInt32) : UInt32 := (x >>> n) ||| (x <<< (32 - n))

def smallSigma0 (x : UInt32) : UInt32 := rotr x 7 ^^^ rotr x 18 ^^^ (x >>> 3)

def smallSigma1 (x : UInt32) : UInt32 := rotr x 17 ^^^ rotr x 19 ^^^ (x >>> 10)

def bigSigma0 (x : UInt32) : UInt32 := rotr x 2 ^^^ rotr x 13 ^^^ rotr x 22

def bigSigma1 (x : UInt32) : UInt32 := rotr x 6 ^^^ rotr x 11 ^^^ rotr x 25

def choose (x y z : UInt32) : UInt32 := (x &&& y) ^^^ (~~~x &&& z)

def majority (x y z : UInt32) : UInt32 := (x &&& y) ^^^ (x &&& z) ^^^ (y &&& z)

def pad (bytes : Array UInt8) : Array UInt8 :=
  let zeros := (119 - bytes.size % 64) % 64
  bytes ++ #[0x80] ++ Array.replicate zeros 0 ++ (BigEndian.encode 8 (8 * bytes.size)).toArray

def wordAt (bytes : Array UInt8) (i : Nat) : UInt32 :=
  ((bytes.getD i 0).toUInt32 <<< 24) ||| ((bytes.getD (i + 1) 0).toUInt32 <<< 16) |||
    ((bytes.getD (i + 2) 0).toUInt32 <<< 8) ||| (bytes.getD (i + 3) 0).toUInt32

/-- The sixty-four words of the block that starts at `start`. -/
def schedule (padded : Array UInt8) (start : Nat) : Array UInt32 :=
  let block := Nat.fold 16 (fun i _ ws => ws.push (wordAt padded (start + 4 * i)))
    (Array.mkEmpty 64)
  Nat.fold 48 (fun i _ ws => ws.push (smallSigma1 (ws.getD (i + 14) 0) + ws.getD (i + 9) 0 +
    smallSigma0 (ws.getD (i + 1) 0) + ws.getD i 0)) block

def round (x : Digest) (k w : UInt32) : Digest :=
  let t1 := x.h + bigSigma1 x.e + choose x.e x.f x.g + k + w
  let t2 := bigSigma0 x.a + majority x.a x.b x.c
  ⟨t1 + t2, x.a, x.b, x.c, x.d + t1, x.e, x.f, x.g⟩

def compress (x : Digest) (ws : Array UInt32) : Digest :=
  x.add (Nat.fold 64 (fun i _ y => round y (roundConstants.getD i 0) (ws.getD i 0)) x)

def digest (bytes : Array UInt8) : Digest :=
  let padded := pad bytes
  Nat.fold (padded.size / 64) (fun i _ x => compress x (schedule padded (64 * i))) initial

end Arbiter.Sha256
