import Mathlib.Algebra.GroupWithZero.Nat
import Arbiter.Message.Bounds
import Arbiter.Proofs.Message.Verification

/-!
Bounds in words are bounds in numbers without end. A sum is found in a word exactly when it is less
than two to the sixty-fourth, and no message is that long; so a test in words accepts exactly what
the same test on unbounded sums accepts, and the reads behind it take the same bytes.
-/

namespace Arbiter

namespace Word

variable {a b c : UInt64}

theorem add?_eq_some : add? a b = some c ↔ c.toNat = a.toNat + b.toNat := by
  have ha := a.toNat_lt
  have hb := b.toNat_lt
  have hc := c.toNat_lt
  simp only [add?, UInt64.le_iff_toNat_le, UInt64.toNat_add]
  split
  · rw [Option.some_inj, ← UInt64.toNat_inj, UInt64.toNat_add]
    omega
  · simp only [reduceCtorEq, false_iff]
    omega

theorem add?_eq_none : add? a b = none ↔ 2 ^ 64 ≤ a.toNat + b.toNat := by
  have ha := a.toNat_lt
  have hb := b.toNat_lt
  simp only [add?, UInt64.le_iff_toNat_le, UInt64.toNat_add, ite_eq_right_iff, reduceCtorEq,
    imp_false]
  omega

theorem toNat_addSaturating :
    (addSaturating a b).toNat = min (a.toNat + b.toNat) (2 ^ 64 - 1) := by
  rw [addSaturating]
  cases hsum : add? a b with
  | none =>
    have hlarge := add?_eq_none.mp hsum
    rw [Option.getD_none, Nat.min_eq_right (by omega)]
    rfl
  | some c =>
    have hc := c.toNat_lt
    rw [Option.getD_some, add?_eq_some.mp hsum, Nat.min_eq_left]
    rw [add?_eq_some.mp hsum] at hc
    exact Nat.le_sub_one_of_lt hc

theorem any_add?_le {limit : UInt64} :
    (add? a b).any (· ≤ limit) = true ↔ a.toNat + b.toNat ≤ limit.toNat := by
  cases hsum : add? a b with
  | none =>
    have hlarge := add?_eq_none.mp hsum
    have hlimit := limit.toNat_lt
    simp only [Option.any_none, Bool.false_eq_true, false_iff]
    omega
  | some c =>
    rw [Option.any_some, decide_eq_true_iff, UInt64.le_iff_toNat_le, add?_eq_some.mp hsum]

end Word

def WordField.field (f : WordField) : Field := ⟨f.offset.toNat, f.size.toNat⟩

namespace Message

variable {m : Message}

theorem toNat_wordSize (hm : m.size < 2 ^ 63) : m.wordSize.toNat = m.size :=
  UInt64.toNat_ofNat_of_lt' (Nat.lt_trans hm (by decide))

theorem toNat_wordBodySize (hm : m.size < 2 ^ 63) : m.wordBodySize.toNat = m.bodySize := by
  have hsize := toNat_wordSize hm
  rw [wordBodySize, bodySize, trailerSize]
  split
  · rename_i hshort
    rw [UInt64.lt_iff_toNat_lt, hsize] at hshort
    exact (Nat.sub_eq_zero_of_le (Nat.le_of_lt hshort)).symm
  · rename_i hlong
    rw [UInt64.lt_iff_toNat_lt, Nat.not_lt] at hlong
    rw [UInt64.toNat_sub_of_le _ _ (UInt64.le_iff_toNat_le.mpr hlong), hsize]
    rfl

theorem fieldFits_iff (hm : m.size < 2 ^ 63) (f : WordField) :
    m.fieldFits f = true ↔ m.HasField f.field := by
  -- An end that saturates is past every message, as the true end is.
  have hfour : (4 : UInt64).toNat = trailerSize := rfl
  have hfield : m.HasField f.field ↔ f.offset.toNat + f.size.toNat + trailerSize ≤ m.size := Iff.rfl
  rw [fieldFits, Word.any_add?_le, WordField.stop, Word.toNat_addSaturating, toNat_wordSize hm,
    hfour, hfield, trailerSize]
  omega

theorem lengthAtLeast_iff (hm : m.size < 2 ^ 63) (n : Int64) :
    m.lengthAtLeast n = true ↔ m.HasBody n.toInt := by
  rw [lengthAtLeast, Bool.and_eq_true, Bool.and_eq_true, decide_eq_true_iff, decide_eq_true_iff,
    Word.any_add?_le, Int64.le_iff_toInt_le, UInt64.le_iff_toNat_le, toNat_wordSize hm, HasBody,
    and_assoc]
  -- A number that is not negative is the same word with and without a sign.
  refine and_congr_right fun hn => ?_
  have hword : (n.toUInt64.toNat : Int) = n.toInt := by
    rw [Int64.toNat_toUInt64_of_le (Int64.le_iff_toInt_le.mpr hn)]
    exact Int.toNat_of_nonneg hn
  have hmax : (100000 : UInt64).toNat = maxSize := rfl
  have hfour : (4 : UInt64).toNat = trailerSize := rfl
  rw [hmax, hfour]
  omega

section Regions

variable {base start count stop : UInt64}

theorem regionEnd?_eq_some (hm : m.size < 2 ^ 63) :
    m.regionEnd? base start count = some stop ↔
      m.HasRegion base.toNat start.toNat count.toNat ∧
        stop.toNat = base.toNat + start.toNat + count.toNat := by
  have hmax : (100000 : UInt64).toNat = maxSize := rfl
  have hbody := toNat_wordBodySize hm
  simp only [regionEnd?, Option.bind_eq_bind, Option.bind_eq_some_iff, Word.add?_eq_some,
    UInt64.le_iff_toNat_le, hmax, hbody, HasRegion, Option.ite_none_right_eq_some, Option.some_inj]
  constructor
  · rintro ⟨first, hfirst, last, hlast, hfits, rfl⟩
    rw [hfirst] at hlast
    rw [hlast] at hfits
    exact ⟨hfits, hlast⟩
  · rintro ⟨hfits, hstop⟩
    -- Both sums end inside the message, so words hold them.
    have hlt : base.toNat + start.toNat < 2 ^ 64 := by
      have hstart := hfits.1
      rw [maxSize] at hstart
      omega
    have hfirst : (UInt64.ofNat (base.toNat + start.toNat)).toNat = base.toNat + start.toNat :=
      UInt64.toNat_ofNat_of_lt' hlt
    exact ⟨_, hfirst, stop, by rw [hstop, hfirst], by rwa [hstop], rfl⟩

theorem bufferFits_iff (hm : m.size < 2 ^ 63) :
    m.bufferFits base start count = true ↔ m.HasRegion base.toNat start.toNat count.toNat := by
  simp only [bufferFits, Option.isSome_iff_exists, regionEnd?_eq_some hm]
  constructor
  · rintro ⟨stop, hfits, -⟩
    exact hfits
  · intro hfits
    have hlt : base.toNat + start.toNat + count.toNat < 2 ^ 64 :=
      Nat.lt_of_le_of_lt hfits.1 (by decide)
    exact ⟨_, hfits, UInt64.toNat_ofNat_of_lt' hlt⟩

theorem regionAt?_eq (hm : m.size < 2 ^ 63) :
    m.regionAt? base start count = m.region? base.toNat start.toNat count.toNat := by
  rw [regionAt?, region?]
  cases hstop : m.regionEnd? base start count with
  | none =>
    have hfits : ¬m.HasRegion base.toNat start.toNat count.toNat := by
      rw [← bufferFits_iff hm, bufferFits, hstop]
      exact Bool.false_ne_true
    rw [if_neg hfits, Option.map_none]
  | some stop =>
    obtain ⟨hfits, hsum⟩ := (regionEnd?_eq_some hm).mp hstop
    have hcount : count ≤ stop := by
      rw [UInt64.le_iff_toNat_le, hsum]
      exact Nat.le_add_left ..
    rw [if_pos hfits, Option.map_some, UInt64.toNat_sub_of_le _ _ hcount, hsum,
      Nat.add_sub_cancel_right]

end Regions

section Reads

variable {f : WordField}

theorem fieldAt?_eq (hm : m.size < 2 ^ 63) (f : WordField) : m.fieldAt? f = m.field? f.field := by
  simp only [fieldAt?, field?, fieldFits_iff hm]
  rfl

theorem natAt?_eq (hm : m.size < 2 ^ 63) (width : Nat) (f : WordField) :
    m.natAt? width f = m.nat? width f.field := by
  -- The width asked for is compared with the bytes found, which are as many as the field has.
  rw [natAt?, nat?, fieldAt?_eq hm]
  cases hbytes : m.field? f.field with
  | none => split <;> rfl
  | some bytes =>
    obtain ⟨-, hlength⟩ := field?_eq_some.mp hbytes
    rw [Option.bind_some, hlength, Option.map_some]

theorem readU32?_eq (hm : m.size < 2 ^ 63) (f : WordField) : m.readU32? f = m.u32? f.field := by
  rw [readU32?, u32?, natAt?_eq hm]

theorem readI32?_eq (hm : m.size < 2 ^ 63) (f : WordField) : m.readI32? f = m.i32? f.field := by
  rw [readI32?, i32?, readU32?_eq hm]

theorem readU64?_eq (hm : m.size < 2 ^ 63) (f : WordField) : m.readU64? f = m.u64? f.field := by
  rw [readU64?, u64?, natAt?_eq hm]

theorem nat?_of_not_hasField {width : Nat} {f : Field} (h : ¬m.HasField f) :
    m.nat? width f = none := by
  rw [nat?, field?, if_neg h, Option.map_none, ite_self]

theorem readU32At?_eq (hm : m.size < 2 ^ 63) (base start : UInt64) (f : WordField) :
    m.readU32At? base start f = m.u32At? (base.toNat + start.toNat) f.field := by
  -- A place that no word can say lies in no message.
  rw [readU32At?, u32At?]
  have hnone {place : Nat} (hlarge : 2 ^ 64 ≤ place) : m.u32? ⟨place, f.field.size⟩ = none := by
    have hout : ¬m.HasField ⟨place, f.field.size⟩ := by
      change ¬place + f.field.size + trailerSize ≤ m.size
      omega
    rw [u32?, nat?_of_not_hasField hout, Option.map_none]
  cases hfirst : Word.add? base start with
  | none =>
    have hlarge := Word.add?_eq_none.mp hfirst
    exact (hnone (Nat.le_add_right_of_le hlarge)).symm
  | some first =>
    have hsum := Word.add?_eq_some.mp hfirst
    rw [← hsum]
    cases hplace : Word.add? first f.offset with
    | none =>
      have hlarge := Word.add?_eq_none.mp hplace
      simp only [Option.bind_eq_bind, Option.bind_some, hplace, Option.bind_none]
      exact (hnone hlarge).symm
    | some place =>
      simp only [Option.bind_eq_bind, Option.bind_some, hplace]
      rw [readU32?_eq hm, WordField.field, Word.add?_eq_some.mp hplace]
      rfl

end Reads

def Stretch (m : Message) (start count : Nat) (bytes : Bytes) : Prop :=
  bytes <+: m.toBytes.drop start ∧ bytes.length = count

section Values

variable {start count : Nat} {bytes : Bytes}

theorem stretch_iff (h : start + count ≤ m.size) :
    m.Stretch start count bytes ↔ m.slice start count = bytes := by
  rw [Stretch, List.prefix_iff_eq_take, slice_eq]
  constructor
  · rintro ⟨htake, rfl⟩
    exact htake.symm
  · intro hslice
    have hlength : bytes.length = count := by rw [← hslice, ← slice_eq, length_slice h]
    exact ⟨by rw [hlength, hslice], hlength⟩

theorem nat?_eq_some {width n : Nat} {f : Field} (hwidth : f.size = width) :
    m.nat? width f = some n ↔
      m.HasField f ∧ ∃ bytes, m.Stretch f.offset width bytes ∧ BigEndian.decode bytes = n := by
  rw [nat?, if_pos hwidth, field?]
  split
  · rename_i hfits
    have hinside : f.offset + width ≤ m.size := hwidth ▸ Nat.le_of_add_right_le hfits
    simp only [stretch_iff hinside, hwidth, hfits, true_and, exists_eq_left', Option.map_some,
      Option.some_inj]
  · rename_i hfits
    simp [hfits]

theorem decode_lt_of_stretch (h : m.Stretch start count bytes) :
    BigEndian.decode bytes < BigEndian.capacity count :=
  h.2 ▸ BigEndian.decode_lt bytes

theorem u32?_iff {n : UInt32} {f : Field} (hwidth : f.size = 4) :
    m.u32? f = some n ↔
      m.HasField f ∧ ∃ bytes, m.Stretch f.offset 4 bytes ∧ BigEndian.decode bytes = n.toNat := by
  rw [u32?, Option.map_eq_some_iff]
  simp only [nat?_eq_some hwidth]
  constructor
  · rintro ⟨_, ⟨hfits, bytes, hbytes, rfl⟩, rfl⟩
    exact ⟨hfits, bytes, hbytes, (UInt32.toNat_ofNat_of_lt' (decode_lt_of_stretch hbytes)).symm⟩
  · rintro ⟨hfits, bytes, hbytes, hvalue⟩
    exact ⟨_, ⟨hfits, bytes, hbytes, hvalue⟩, UInt32.ofNat_toNat⟩

theorem u64?_iff {n : UInt64} {f : Field} (hwidth : f.size = 8) :
    m.u64? f = some n ↔
      m.HasField f ∧ ∃ bytes, m.Stretch f.offset 8 bytes ∧ BigEndian.decode bytes = n.toNat := by
  rw [u64?, Option.map_eq_some_iff]
  simp only [nat?_eq_some hwidth]
  constructor
  · rintro ⟨_, ⟨hfits, bytes, hbytes, rfl⟩, rfl⟩
    exact ⟨hfits, bytes, hbytes, (UInt64.toNat_ofNat_of_lt' (decode_lt_of_stretch hbytes)).symm⟩
  · rintro ⟨hfits, bytes, hbytes, hvalue⟩
    exact ⟨_, ⟨hfits, bytes, hbytes, hvalue⟩, UInt64.ofNat_toNat⟩

theorem i32?_iff {n : Int32} {f : Field} (hwidth : f.size = 4) :
    m.i32? f = some n ↔ m.HasField f ∧ ∃ bytes, m.Stretch f.offset 4 bytes ∧
      (BigEndian.decode bytes : Int).bmod (2 ^ 32) = n.toInt := by
  have hsign (k : UInt32) : k.toInt32.toInt = (k.toNat : Int).bmod (2 ^ 32) :=
    BitVec.toInt_eq_toNat_bmod k.toBitVec
  rw [i32?, Option.map_eq_some_iff]
  simp only [u32?_iff hwidth]
  constructor
  · rintro ⟨k, ⟨hfits, bytes, hbytes, hvalue⟩, rfl⟩
    exact ⟨hfits, bytes, hbytes, by rw [hvalue, hsign]⟩
  · rintro ⟨hfits, bytes, hbytes, hvalue⟩
    have hk := UInt32.toNat_ofNat_of_lt' (decode_lt_of_stretch hbytes)
    refine ⟨UInt32.ofNat (BigEndian.decode bytes), ⟨hfits, bytes, hbytes, hk.symm⟩, ?_⟩
    rw [← Int32.toInt_inj, hsign, hk, hvalue]

end Values

/-- What the tests and reads of a message accept, in sums that know no greatest word. -/
structure ExactBounds (m : Message) : Prop where
  field (f : WordField) :
    m.fieldFits f = true ↔ f.offset.toNat + f.size.toNat + 4 ≤ m.size
  length (n : Int64) :
    m.lengthAtLeast n = true ↔ 0 ≤ n.toInt ∧ n.toInt ≤ 100000 ∧ n.toInt + 4 ≤ m.size
  buffer (base start count : UInt64) :
    m.bufferFits base start count = true ↔
      base.toNat + start.toNat + count.toNat ≤ min 100000 (m.size - 4)
  region (base start count : UInt64) (bytes : Bytes) :
    m.regionAt? base start count = some bytes ↔
      base.toNat + start.toNat + count.toNat ≤ min 100000 (m.size - 4) ∧
        m.Stretch (base.toNat + start.toNat) count.toNat bytes
  u32 (f : WordField) (n : UInt32) : f.size = 4 →
    (m.readU32? f = some n ↔ f.offset.toNat + 4 + 4 ≤ m.size ∧
      ∃ bytes, m.Stretch f.offset.toNat 4 bytes ∧ BigEndian.decode bytes = n.toNat)
  i32 (f : WordField) (n : Int32) : f.size = 4 →
    (m.readI32? f = some n ↔ f.offset.toNat + 4 + 4 ≤ m.size ∧
      ∃ bytes, m.Stretch f.offset.toNat 4 bytes ∧
        (BigEndian.decode bytes : Int).bmod (2 ^ 32) = n.toInt)
  u64 (f : WordField) (n : UInt64) : f.size = 8 →
    (m.readU64? f = some n ↔ f.offset.toNat + 8 + 4 ≤ m.size ∧
      ∃ bytes, m.Stretch f.offset.toNat 8 bytes ∧ BigEndian.decode bytes = n.toNat)
  u32At (base start : UInt64) (f : WordField) :
    m.readU32At? base start f =
      m.u32? ⟨base.toNat + start.toNat + f.offset.toNat, f.size.toNat⟩
  unbounded (f : WordField) (base start count : UInt64) :
    m.readU32? f = m.u32? f.field ∧ m.readI32? f = m.i32? f.field ∧
      m.readU64? f = m.u64? f.field ∧
      m.regionAt? base start count = m.region? base.toNat start.toNat count.toNat
  /-- No sum that a word cannot hold is taken for one that fits. -/
  wraps (f : WordField) (base start count : UInt64) :
    (2 ^ 64 ≤ f.offset.toNat + f.size.toNat + 4 → m.fieldFits f = false) ∧
      (2 ^ 64 ≤ base.toNat + start.toNat + count.toNat →
        m.bufferFits base start count = false ∧ m.regionAt? base start count = none) ∧
      (2 ^ 64 ≤ base.toNat + start.toNat + f.offset.toNat → m.readU32At? base start f = none)

theorem hasRegion_iff_le {base start count : Nat} :
    m.HasRegion base start count ↔ base + start + count ≤ min 100000 (m.size - 4) :=
  Nat.le_min.symm

theorem region?_eq_some {base start count : Nat} {bytes : Bytes} :
    m.region? base start count = some bytes ↔
      m.HasRegion base start count ∧ m.Stretch (base + start) count bytes := by
  rw [region?]
  split
  · rename_i hfits
    have hinside : base + start + count ≤ m.size := Nat.le_trans hfits.2 (Nat.sub_le ..)
    rw [stretch_iff hinside, Option.some_inj, and_iff_right hfits]
  · rename_i hfits
    simp [hfits]

/-- Tests and reads in words are exact for every message that can be addressed, whatever the place
and the length asked for. -/
theorem bounds_exact (m : Message) (hm : m.size < 2 ^ 63) : m.ExactBounds where
  field f := fieldFits_iff hm f
  length n := lengthAtLeast_iff hm n
  buffer base start count := (bufferFits_iff hm).trans hasRegion_iff_le
  region base start count bytes := by
    rw [regionAt?_eq hm, region?_eq_some, hasRegion_iff_le]
  u32 f n hwidth := by
    have hfield : f.field.size = 4 := congrArg UInt64.toNat hwidth
    rw [readU32?_eq hm, u32?_iff hfield, HasField, hfield]
    rfl
  i32 f n hwidth := by
    have hfield : f.field.size = 4 := congrArg UInt64.toNat hwidth
    rw [readI32?_eq hm, i32?_iff hfield, HasField, hfield]
    rfl
  u64 f n hwidth := by
    have hfield : f.field.size = 8 := congrArg UInt64.toNat hwidth
    rw [readU64?_eq hm, u64?_iff hfield, HasField, hfield]
    rfl
  u32At base start f := readU32At?_eq hm base start f
  unbounded f base start count :=
    ⟨readU32?_eq hm f, readI32?_eq hm f, readU64?_eq hm f, regionAt?_eq hm⟩
  wraps f base start count := by
    have hregion (hlarge : 2 ^ 64 ≤ base.toNat + start.toNat + count.toNat) :
        ¬m.HasRegion base.toNat start.toNat count.toNat := by
      rw [hasRegion_iff_le]
      omega
    refine ⟨fun hlarge => ?_, fun hlarge => ⟨?_, ?_⟩, fun hlarge => ?_⟩
    · rw [← Bool.not_eq_true, fieldFits_iff hm]
      change ¬f.offset.toNat + f.size.toNat + 4 ≤ m.size
      omega
    · rw [← Bool.not_eq_true, bufferFits_iff hm]
      exact hregion hlarge
    · rw [regionAt?_eq hm, region?, if_neg (hregion hlarge)]
    · have hout : ¬m.HasField ⟨base.toNat + start.toNat + f.offset.toNat, f.size.toNat⟩ := by
        change ¬base.toNat + start.toNat + f.offset.toNat + f.size.toNat + 4 ≤ m.size
        omega
      rw [readU32At?_eq hm, u32At?]
      change m.u32? ⟨base.toNat + start.toNat + f.offset.toNat, f.size.toNat⟩ = none
      rw [u32?, nat?_of_not_hasField hout, Option.map_none]

/-- The last field before the trailer, and the places of words that wrap around to it. -/
theorem bounds_exact_last_field : (ofBytes (List.replicate 20 7)).size < 2 ^ 63 ∧
    (ofBytes (List.replicate 20 7)).fieldFits ⟨12, 4⟩ = true ∧
    (ofBytes (List.replicate 20 7)).readU32? ⟨12, 4⟩ = some 0x07070707 ∧
    (ofBytes (List.replicate 20 7)).fieldFits ⟨0xfffffffffffffffc, 20⟩ = false ∧
    (ofBytes (List.replicate 20 7)).bufferFits 8 0xfffffffffffffffc 8 = false ∧
    (ofBytes (List.replicate 20 7)).readU32At? 8 0xfffffffffffffffc ⟨8, 4⟩ = none := by
  have hm : (ofBytes (List.replicate 20 7)).size < 2 ^ 63 := by decide
  have hexact := bounds_exact (ofBytes (List.replicate 20 7)) hm
  have hwraps := hexact.wraps ⟨0xfffffffffffffffc, 20⟩ 8 0xfffffffffffffffc 8
  refine ⟨hm, (hexact.field _).mpr (by decide), (hexact.u32 _ _ rfl).mpr ⟨by decide, ?_⟩,
    hwraps.1 (by decide), (hwraps.2.1 (by decide)).1,
    (hexact.wraps ⟨8, 4⟩ 8 0xfffffffffffffffc 0).2.2 (by decide)⟩
  exact ⟨[7, 7, 7, 7], ⟨by decide, rfl⟩, by decide⟩

end Message

end Arbiter
