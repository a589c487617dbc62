import Arbiter.Message.Encode
import Arbiter.Message.Decode

/-!
What a composed message holds and where. Composition puts a header before the fields and a trailer
behind them, so a field is read back from its own bytes, and decoding comes down to the layout of
the opcode.
-/

namespace Arbiter.Message

def Holds (m : Message) (offset : Nat) (bytes : Bytes) : Prop :=
  ∃ front back, m.toBytes = front ++ (bytes ++ back) ∧ front.length = offset ∧
    trailerSize ≤ back.length

theorem size_eq_length (m : Message) : m.size = m.toBytes.length := by
  simp [size, toBytes]

theorem getElem?_toBytes (m : Message) (i : Nat) : m.toBytes[i]? = m.bytes[i]? :=
  Array.getElem?_toList

theorem slice_congr {m m' : Message} {start count : Nat}
    (h : ∀ i, start ≤ i → i < start + count → m.bytes[i]? = m'.bytes[i]?) :
    m.slice start count = m'.slice start count := by
  rw [slice_eq, slice_eq]
  refine List.ext_getElem? fun i => ?_
  simp only [List.getElem?_take, List.getElem?_drop, getElem?_toBytes]
  split
  · exact h _ (Nat.le_add_right ..) (Nat.add_lt_add_left ‹_› _)
  · rfl

namespace Holds

variable {m : Message} {offset : Nat} {as bs : Bytes}

theorem left (h : m.Holds offset (as ++ bs)) : m.Holds offset as := by
  obtain ⟨front, back, hm, hfront, hback⟩ := h
  refine ⟨front, bs ++ back, by simpa using hm, hfront, ?_⟩
  rw [List.length_append]
  omega

theorem right (h : m.Holds offset (as ++ bs)) : m.Holds (offset + as.length) bs := by
  obtain ⟨front, back, hm, hfront, hback⟩ := h
  exact ⟨front ++ as, back, by simpa using hm, by simp [hfront], hback⟩

theorem assoc {cs : Bytes} (h : m.Holds offset (as ++ bs ++ cs)) :
    m.Holds offset (as ++ (bs ++ cs)) :=
  List.append_assoc as bs cs ▸ h

theorem skip {width : Nat} (h : m.Holds offset (as ++ bs)) (hwidth : as.length = width) :
    m.Holds (offset + width) bs :=
  hwidth ▸ h.right

theorem afterU32 {n : UInt32} (h : m.Holds offset (u32Bytes n ++ bs)) :
    m.Holds (offset + 4) bs :=
  h.skip (length_u32Bytes n)

theorem afterI32 {n : Int32} (h : m.Holds offset (i32Bytes n ++ bs)) :
    m.Holds (offset + 4) bs :=
  h.skip (length_i32Bytes n)

theorem afterToken {n : UInt64} (h : m.Holds offset (u64Bytes n ++ bs)) :
    m.Holds (offset + 8) bs :=
  h.skip (length_u64Bytes n)

theorem afterSize {n : Nat} (h : m.Holds offset (sizeBytes n ++ bs)) :
    m.Holds (offset + 4) bs :=
  h.skip (BigEndian.length_encode 4 n)

theorem afterFilter {f : Filter} (h : m.Holds offset (filterBytes f ++ bs)) :
    m.Holds (offset + 12) bs :=
  h.skip (by simp [filterBytes])

theorem fits (h : m.Holds offset bs) : offset + bs.length + trailerSize ≤ m.size := by
  obtain ⟨front, back, hm, rfl, hback⟩ := h
  rw [size_eq_length, hm]
  simp only [List.length_append]
  omega

theorem congr {offset' : Nat} (h : m.Holds offset bs) (heq : offset = offset') :
    m.Holds offset' bs :=
  heq ▸ h

theorem slice_eq (h : m.Holds offset bs) : m.slice offset bs.length = bs := by
  obtain ⟨front, back, hm, rfl, -⟩ := h
  rw [Message.slice_eq, hm, List.drop_left, List.take_left]

theorem field? (h : m.Holds offset bs) : m.field? ⟨offset, bs.length⟩ = some bs := by
  have hfield : m.HasField ⟨offset, bs.length⟩ := h.fits
  rw [Message.field?, if_pos hfield, h.slice_eq]

theorem hasRegion {base start : Nat} (h : m.Holds (base + start) bs) (hmax : m.size ≤ maxSize) :
    m.HasRegion base start bs.length := by
  have hfits := h.fits
  constructor
  · omega
  · rw [bodySize]
    omega

theorem region? {base start : Nat} (h : m.Holds (base + start) bs) (hmax : m.size ≤ maxSize) :
    m.region? base start bs.length = some bs := by
  rw [Message.region?, if_pos (h.hasRegion hmax), h.slice_eq]

theorem nat? {width n : Nat} (h : m.Holds offset (BigEndian.encode width n)) :
    m.nat? width ⟨offset, width⟩ = some (n % BigEndian.capacity width) := by
  have hfield := h.field?
  rw [BigEndian.length_encode] at hfield
  rw [Message.nat?, if_pos rfl, hfield, Option.map_some, BigEndian.decode_encode]

theorem u32? {n : UInt32} (h : m.Holds offset (u32Bytes n)) : m.u32? ⟨offset, 4⟩ = some n := by
  have hn : n.toNat % BigEndian.capacity 4 = n.toNat := Nat.mod_eq_of_lt n.toNat_lt
  rw [Message.u32?, nat? h, hn, Option.map_some, UInt32.ofNat_toNat]

theorem i32? {n : Int32} (h : m.Holds offset (i32Bytes n)) : m.i32? ⟨offset, 4⟩ = some n := by
  rw [Message.i32?, u32? h, Option.map_some]
  rfl

theorem u64? {n : UInt64} (h : m.Holds offset (u64Bytes n)) : m.u64? ⟨offset, 8⟩ = some n := by
  have hn : n.toNat % BigEndian.capacity 8 = n.toNat := Nat.mod_eq_of_lt n.toNat_lt
  rw [Message.u64?, nat? h, hn, Option.map_some, UInt64.ofNat_toNat]

theorem size? {n : Nat} (h : m.Holds offset (sizeBytes n)) (hn : n ≤ maxSize) :
    ∃ size : UInt32, m.u32? ⟨offset, 4⟩ = some size ∧ size.toNat = n := by
  -- Lengths inside a message are far below what four bytes hold.
  have hsize : n < UInt32.size := Nat.lt_of_le_of_lt hn (by decide)
  have hheld : m.Holds offset (u32Bytes (UInt32.ofNat n)) := by
    rwa [u32Bytes, UInt32.toNat_ofNat_of_lt' hsize]
  exact ⟨_, hheld.u32?, UInt32.toNat_ofNat_of_lt' hsize⟩

end Holds

theorem sealed_eq {m : Message} (hsize : trailerSize ≤ m.size) : m.sealed =
    ⟨m.bytes.extract 0 m.bodySize ++
      (u32Bytes (checksum (m.bytes.extract 0 m.bodySize))).toArray⟩ := by
  rw [sealed, if_neg (Nat.not_lt.mpr hsize)]

theorem size_body (m : Message) : (m.bytes.extract 0 m.bodySize).size = m.bodySize := by
  rw [Array.size_extract, bodySize, size]
  omega

theorem size_sealed (m : Message) : m.sealed.size = m.size := by
  by_cases hsize : trailerSize ≤ m.size
  · rw [sealed_eq hsize, size, Array.size_append, size_body, List.size_toArray, length_u32Bytes]
    exact Nat.sub_add_cancel hsize
  · rw [sealed, if_pos (Nat.not_le.mp hsize)]

theorem sealed_sealed {m : Message} (hsize : minSize ≤ m.size) : m.sealed.Sealed := by
  have hbodySize : m.sealed.bodySize = m.bodySize := by rw [bodySize, size_sealed, bodySize]
  have heq := sealed_eq (Nat.le_trans (Nat.le_add_left ..) hsize)
  have hbody := size_body m
  refine ⟨by rw [size_sealed]; exact hsize, ?_⟩
  rw [trailer, slice, hbodySize, heq]
  generalize m.bytes.extract 0 m.bodySize = body at hbody
  have hlength : (u32Bytes (checksum body)).length ≤ trailerSize := by simp [trailerSize]
  rw [← hbody, Array.extract_append_left, Array.extract_append_right, Array.extract_size,
    List.extract_toArray, List.extract_eq_take_drop, List.drop_zero, Nat.sub_zero,
    List.take_of_length_le hlength]

theorem toBytes_sealed (body trailer : Bytes) (htrailer : trailer.length = trailerSize) :
    ∃ trailer' : Bytes, trailer'.length = trailerSize ∧
      (sealed (ofBytes (body ++ trailer))).toBytes = body ++ trailer' := by
  have hsize : (ofBytes (body ++ trailer)).size = body.length + trailerSize := by
    simp [size, ofBytes, htrailer]
  -- Sealing keeps the body, whatever bytes stood in the trailer's place.
  have hbody : (ofBytes (body ++ trailer)).bytes.extract 0 body.length = body.toArray := by
    apply Array.toList_inj.mp
    rw [ofBytes, List.extract_toArray, List.extract_eq_take_drop]
    simp
  refine ⟨u32Bytes (checksum body.toArray), length_u32Bytes _, ?_⟩
  rw [sealed, if_neg (by rw [hsize]; omega), bodySize, hsize, Nat.add_sub_cancel, hbody]
  simp [toBytes]

section Compose

variable {op : Opcode} {fields : Bytes} {m : Message}

theorem toBytes_of_compose (h : compose op fields = .ok m) :
    headerSize + fields.length + trailerSize ≤ maxSize ∧
      ∃ trailer : Bytes, trailer.length = trailerSize ∧
        m.toBytes = (BigEndian.encode 4 (headerSize + fields.length + trailerSize) ++
          u32Bytes op.code) ++ (fields ++ trailer) := by
  simp only [compose] at h
  split at h
  · rename_i hsize
    obtain ⟨trailer, htrailer, hbytes⟩ := toBytes_sealed
      (BigEndian.encode 4 (headerSize + fields.length + trailerSize) ++ u32Bytes op.code ++ fields)
      (List.replicate trailerSize 0) (by simp)
    refine ⟨hsize, trailer, htrailer, ?_⟩
    rw [← Except.ok.inj h, hbytes, List.append_assoc]
  · cases h

theorem size_of_compose (h : compose op fields = .ok m) :
    m.size = headerSize + fields.length + trailerSize := by
  obtain ⟨-, trailer, htrailer, hm⟩ := toBytes_of_compose h
  rw [size_eq_length, hm]
  simp only [List.length_append, BigEndian.length_encode, length_u32Bytes, htrailer, headerSize]
  omega

theorem size_le_of_compose (h : compose op fields = .ok m) : m.size ≤ maxSize :=
  size_of_compose h ▸ (toBytes_of_compose h).1

theorem sealed_of_compose (h : compose op fields = .ok m) : m.Sealed := by
  simp only [compose] at h
  split at h
  · rw [← Except.ok.inj h]
    refine sealed_sealed ?_
    simp only [size, ofBytes, List.size_toArray, List.length_append, BigEndian.length_encode,
      length_u32Bytes, List.length_replicate, minSize, headerSize]
    omega
  · cases h

theorem holds_of_compose (h : compose op fields = .ok m) : m.Holds headerSize fields := by
  obtain ⟨-, trailer, htrailer, hm⟩ := toBytes_of_compose h
  exact ⟨_, trailer, hm, by simp [headerSize], Nat.le_of_eq htrailer.symm⟩

theorem declaredSize?_of_compose (h : compose op fields = .ok m) :
    ∃ declared : UInt32, m.declaredSize? = some declared ∧ declared.toNat = m.size := by
  have hsize := size_of_compose h
  obtain ⟨hmax, trailer, htrailer, hm⟩ := toBytes_of_compose h
  have hdeclared : (UInt32.ofNat m.size).toNat = m.size := by
    rw [UInt32.toNat_ofNat']
    apply Nat.mod_eq_of_lt
    simp only [maxSize] at hmax
    omega
  have hheld : m.Holds 0 (u32Bytes (UInt32.ofNat m.size)) := by
    refine ⟨[], u32Bytes op.code ++ (fields ++ trailer), ?_, rfl, by simp [htrailer]; omega⟩
    rw [u32Bytes, hdeclared, hm, hsize]
    simp
  exact ⟨_, hheld.u32?, hdeclared⟩

theorem opcode?_of_compose (h : compose op fields = .ok m) : m.opcode? = some op.code := by
  obtain ⟨-, trailer, htrailer, hm⟩ := toBytes_of_compose h
  have hheld : m.Holds 4 (u32Bytes op.code) :=
    ⟨BigEndian.encode 4 (headerSize + fields.length + trailerSize), fields ++ trailer, by simp [hm],
      by simp, by simp [htrailer]⟩
  exact hheld.u32?

theorem verify_of_compose (h : compose op fields = .ok m) : m.verify = m.verifyLayout op := by
  have hsize := size_of_compose h
  have hmax : m.size ≤ maxSize := hsize ▸ (toBytes_of_compose h).1
  have hmin : minSize ≤ m.size := by
    rw [hsize, minSize]
    omega
  obtain ⟨declared, hsome, hdeclared⟩ := declaredSize?_of_compose h
  simp only [verify, require_of hmin, require_of hmax, hsome, require_of hdeclared, expect_some,
    opcode?_of_compose h, Opcode.ofCode?_code, ok_bind]

theorem decode_of_compose (h : compose op fields = .ok m) (hlayout : m.verifyLayout op = .ok ()) :
    m.decode = m.readContent op := by
  simp only [decode, verify_of_compose h, hlayout, expect_some, opcode?_of_compose h,
    Opcode.ofCode?_code, ok_bind]

end Compose

theorem exists_compose {op : Opcode} {fields : Bytes}
    (h : headerSize + fields.length + trailerSize ≤ maxSize) : ∃ m, compose op fields = .ok m := by
  simp only [compose]
  rw [if_pos h]
  exact ⟨_, rfl⟩

theorem exists_outcome (token : UInt64) (you : Bool) (uid : UInt32) (verdict : Verdict) :
    ∃ m, outcome token you uid verdict = .ok m := by
  unfold outcome
  apply exists_compose
  simp [headerSize, trailerSize, maxSize]

theorem decode_outcome {token : UInt64} {you : Bool} {uid : UInt32} {verdict : Verdict}
    {m : Message} (h : outcome token you uid verdict = .ok m) :
    m.decode = .ok (.outcome token you uid verdict) := by
  have hsize : m.size = Layout.Outcome.bodyEnd + trailerSize := by
    rw [size_of_compose h]
    simp [headerSize, Layout.Outcome.bodyEnd]
  have hfields := holds_of_compose h
  have htoken : m.u64? Layout.token = some token := hfields.left.left.u64?
  have huid : m.u32? Layout.Outcome.uid = some uid := hfields.left.right.u32?
  have hverdict : m.i32? Layout.Outcome.verdict = some verdict.code := hfields.right.i32?
  cases you <;>
  · rw [decode_of_compose h]
    · simp only [↓reduceIte, Bool.false_eq_true, readContent, readOutcome, readToken, readU64,
        readU32, readVerdict, readI32, htoken, huid, hverdict, expect_some, ok_bind,
        Verdict.ofCode?_code]
      rfl
    · simp [verifyLayout, requireExact, requireVerdict, require_of hsize, hverdict,
        require_of verdict.nonneg]

end Arbiter.Message
