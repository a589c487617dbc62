import Arbiter.Proofs.Message.Composition

/-!
What the checks of a form come to. Every check is a condition on the bytes that stand at certain
places before the trailer, so a verified message is known by what it holds and where.
-/

namespace Arbiter

theorem u32Bytes_surjective {bytes : Bytes} (h : bytes.length = 4) : ∃ n, bytes = u32Bytes n := by
  refine ⟨UInt32.ofNat (BigEndian.decode bytes), ?_⟩
  have hlt := BigEndian.decode_lt bytes
  rw [h] at hlt
  rw [u32Bytes, UInt32.toNat_ofNat_of_lt' hlt, ← h, BigEndian.encode_decode]

theorem u64Bytes_surjective {bytes : Bytes} (h : bytes.length = 8) : ∃ n, bytes = u64Bytes n := by
  refine ⟨UInt64.ofNat (BigEndian.decode bytes), ?_⟩
  have hlt := BigEndian.decode_lt bytes
  rw [h] at hlt
  rw [u64Bytes, UInt64.toNat_ofNat_of_lt' hlt, ← h, BigEndian.encode_decode]

namespace Message

variable {m : Message} {offset : Nat} {bs : Bytes}

theorem length_slice {count : Nat} (h : offset + count ≤ m.size) :
    (m.slice offset count).length = count := by
  rw [slice_eq, List.length_take, List.length_drop, ← size_eq_length]
  omega

theorem holds_iff : m.Holds offset bs ↔
    offset + bs.length + trailerSize ≤ m.size ∧ m.slice offset bs.length = bs := by
  constructor
  · exact fun h => ⟨h.fits, h.slice_eq⟩
  · rintro ⟨hfits, hslice⟩
    rw [size_eq_length] at hfits
    refine ⟨m.toBytes.take offset, m.toBytes.drop (offset + bs.length), ?_, ?_, ?_⟩
    · rw [slice_eq] at hslice
      rw [← List.drop_drop]
      calc m.toBytes = m.toBytes.take offset ++ m.toBytes.drop offset :=
            (List.take_append_drop ..).symm
        _ = m.toBytes.take offset ++ ((m.toBytes.drop offset).take bs.length ++
            (m.toBytes.drop offset).drop bs.length) :=
          congrArg _ (List.take_append_drop ..).symm
        _ = _ := by rw [hslice]
    · rw [List.length_take]
      omega
    · rw [List.length_drop]
      omega

theorem holds_slice {count : Nat} (h : offset + count + trailerSize ≤ m.size) :
    m.Holds offset (m.slice offset count) := by
  have hlength : (m.slice offset count).length = count := length_slice (by omega)
  exact holds_iff.mpr ⟨hlength.symm ▸ h, by rw [hlength]⟩

namespace Holds

theorem append {as : Bytes} (has : m.Holds offset as) (hbs : m.Holds (offset + as.length) bs) :
    m.Holds offset (as ++ bs) := by
  rw [holds_iff] at has hbs ⊢
  obtain ⟨-, has⟩ := has
  obtain ⟨hfits, hbs⟩ := hbs
  refine ⟨by rw [List.length_append]; omega, ?_⟩
  rw [Message.slice_eq] at has hbs ⊢
  rw [List.length_append, List.take_add, has, List.drop_drop, hbs]

theorem unique {bs' : Bytes} (h : m.Holds offset bs) (h' : m.Holds offset bs')
    (hlength : bs.length = bs'.length) : bs = bs' := by
  have hslice := h.slice_eq
  rw [hlength, h'.slice_eq] at hslice
  exact hslice.symm

end Holds

theorem field?_eq_some {f : Field} :
    m.field? f = some bs ↔ m.Holds f.offset bs ∧ bs.length = f.size := by
  rw [field?]
  constructor
  · intro h
    split at h
    · rename_i hfits
      cases h
      exact ⟨holds_slice hfits, length_slice (Nat.le_of_add_right_le hfits)⟩
    · cases h
  · rintro ⟨h, hlength⟩
    have hfits : m.HasField f := by
      have hfits := h.fits
      rwa [hlength] at hfits
    rw [if_pos hfits, ← hlength, h.slice_eq]

theorem u32?_eq_some {n : UInt32} : m.u32? ⟨offset, 4⟩ = some n ↔ m.Holds offset (u32Bytes n) := by
  constructor
  · intro h
    rw [u32?, nat?, if_pos rfl, Option.map_map, Option.map_eq_some_iff] at h
    obtain ⟨bytes, hbytes, hn⟩ := h
    obtain ⟨hholds, hlength⟩ := field?_eq_some.mp hbytes
    obtain ⟨n', rfl⟩ := u32Bytes_surjective hlength
    have hread := hholds.u32?
    rw [u32?, nat?, if_pos rfl, Option.map_map, hbytes, Option.map_some, hn] at hread
    rwa [Option.some.inj hread]
  · exact Holds.u32?

theorem u64?_eq_some {n : UInt64} : m.u64? ⟨offset, 8⟩ = some n ↔ m.Holds offset (u64Bytes n) := by
  constructor
  · intro h
    rw [u64?, nat?, if_pos rfl, Option.map_map, Option.map_eq_some_iff] at h
    obtain ⟨bytes, hbytes, hn⟩ := h
    obtain ⟨hholds, hlength⟩ := field?_eq_some.mp hbytes
    obtain ⟨n', rfl⟩ := u64Bytes_surjective hlength
    have hread := hholds.u64?
    rw [u64?, nat?, if_pos rfl, Option.map_map, hbytes, Option.map_some, hn] at hread
    rwa [Option.some.inj hread]
  · exact Holds.u64?

theorem exists_u32 (h : offset + 4 + trailerSize ≤ m.size) : ∃ n, m.Holds offset (u32Bytes n) := by
  have hlength : (m.slice offset 4).length = 4 := length_slice (Nat.le_of_add_right_le h)
  obtain ⟨n, hn⟩ := u32Bytes_surjective hlength
  exact ⟨n, hn ▸ holds_slice h⟩

theorem exists_u64 (h : offset + 8 + trailerSize ≤ m.size) : ∃ n, m.Holds offset (u64Bytes n) := by
  have hlength : (m.slice offset 8).length = 8 := length_slice (Nat.le_of_add_right_le h)
  obtain ⟨n, hn⟩ := u64Bytes_surjective hlength
  exact ⟨n, hn ▸ holds_slice h⟩

theorem requireExact_eq_ok {op : Opcode} {bodyEnd : Nat} {u : Unit} :
    m.requireExact op bodyEnd = .ok u ↔ m.size = bodyEnd + trailerSize :=
  require_eq_ok

theorem requireField_eq_ok {op : Opcode} {f : Field} {u : Unit} :
    m.requireField op f = .ok u ↔ m.HasField f :=
  require_eq_ok

theorem expectSize_eq_ok {op : Opcode} {n : Nat} :
    m.expectSize op ⟨offset, 4⟩ = .ok n ↔
      ∃ size : UInt32, m.Holds offset (u32Bytes size) ∧ size.toNat = n := by
  simp only [expectSize, expect_eq_ok, Option.map_eq_some_iff, u32?_eq_some]

theorem requireVerdict_eq_ok {op : Opcode} {u : Unit} :
    m.requireVerdict op ⟨offset, 4⟩ = .ok u ↔
      ∃ code : Int32, m.Holds offset (i32Bytes code) ∧ 0 ≤ code := by
  simp only [requireVerdict, bind_eq_ok, expect_eq_ok, require_eq_ok, i32?,
    Option.map_eq_some_iff, u32?_eq_some]
  constructor
  · rintro ⟨code, ⟨n, hn, rfl⟩, hcode⟩
    exact ⟨n.toInt32, hn, hcode⟩
  · rintro ⟨code, hholds, hcode⟩
    exact ⟨code, ⟨code.toUInt32, hholds, rfl⟩, hcode⟩

section Regions

variable {op : Opcode} {base start count : Nat} {region : String} {u : Unit}

theorem hasRegion_iff (hbase : 0 < base) (hmax : m.size ≤ maxSize) :
    m.HasRegion base start count ↔ base + start + count + trailerSize ≤ m.size := by
  rw [HasRegion, bodySize]
  omega

theorem requireRegion_eq_ok (hbase : 0 < base) (hmax : m.size ≤ maxSize) :
    m.requireRegion op base start count region = .ok u ↔
      base + start + count + trailerSize ≤ m.size :=
  require_eq_ok.trans (hasRegion_iff hbase hmax)

theorem requireString_eq_ok (hbase : 0 < base) (hmax : m.size ≤ maxSize) :
    m.requireString op base start count region = .ok u ↔
      base + start + count + trailerSize ≤ m.size ∧ 0 ∈ m.slice (base + start) count := by
  simp only [requireString, bind_eq_ok, expect_eq_ok, require_eq_ok, region?,
    hasRegion_iff hbase hmax, Option.ite_none_right_eq_some, Option.some.injEq]
  constructor
  · rintro ⟨bytes, ⟨hfits, rfl⟩, hzero⟩
    exact ⟨hfits, hzero⟩
  · rintro ⟨hfits, hzero⟩
    exact ⟨_, ⟨hfits, rfl⟩, hzero⟩

end Regions

section Kinds

variable {op : Opcode}

theorem verifyAuthChallenge_eq_ok (hmax : m.size ≤ maxSize) :
    m.verifyAuthChallenge = .ok () ↔ ∃ challenge keyId : UInt32,
      m.Holds 20 (u32Bytes challenge) ∧ m.Holds 24 (u32Bytes keyId) ∧
        28 + (challenge.toNat + keyId.toNat) + trailerSize ≤ m.size := by
  simp only [verifyAuthChallenge, bind_eq_ok, requireField_eq_ok, Layout.AuthChallenge.challengeSize,
    Layout.AuthChallenge.keyIdSize, Layout.AuthChallenge.payload, expectSize_eq_ok,
    requireRegion_eq_ok (show 0 < 28 by decide) hmax]
  constructor
  · rintro ⟨-, -, -, ⟨challenge, hchallenge, rfl⟩, -, ⟨keyId, hkeyId, rfl⟩, -, -, hfits⟩
    exact ⟨challenge, keyId, hchallenge, hkeyId, by omega⟩
  · rintro ⟨challenge, keyId, hchallenge, hkeyId, hfits⟩
    refine ⟨(), ?_, _, ⟨challenge, hchallenge, rfl⟩, _, ⟨keyId, hkeyId, rfl⟩, (), ?_, ?_⟩
    · simp only [HasField]
      omega
    · omega
    · omega

theorem verifyRegistration_eq_ok (hmax : m.size ≤ maxSize) :
    m.verifyRegistration op = .ok () ↔ ∃ label : UInt32, m.Holds 28 (u32Bytes label) ∧
      (label.toNat = 0 ∨ 32 + 0 + label.toNat + trailerSize ≤ m.size ∧
        0 ∈ m.slice (32 + 0) label.toNat) := by
  simp only [verifyRegistration, bind_eq_ok, requireField_eq_ok, Layout.Registration.labelSize,
    Layout.Registration.payload, expectSize_eq_ok]
  constructor
  · rintro ⟨-, -, -, ⟨label, hlabel, rfl⟩, htext⟩
    refine ⟨label, hlabel, ?_⟩
    split at htext
    · exact .inl ‹_›
    · exact .inr ((requireString_eq_ok (by decide) hmax).mp htext)
  · rintro ⟨label, hlabel, htext⟩
    refine ⟨(), hlabel.fits, _, ⟨label, hlabel, rfl⟩, ?_⟩
    split
    · rfl
    · exact (requireString_eq_ok (by decide) hmax).mpr (htext.resolve_left ‹_›)

theorem verifyEvent_eq_ok (hmax : m.size ≤ maxSize) :
    m.verifyEvent op = .ok () ↔
      ∃ checksumStart checksumSize pathStart pathSize detailStart detailSize : UInt32,
        (m.Holds 36 (u32Bytes checksumStart) ∧ m.Holds 40 (u32Bytes checksumSize) ∧
          m.Holds 44 (u32Bytes pathStart) ∧ m.Holds 48 (u32Bytes pathSize) ∧
          m.Holds 52 (u32Bytes detailStart) ∧ m.Holds 56 (u32Bytes detailSize)) ∧
        60 + checksumStart.toNat + checksumSize.toNat + trailerSize ≤ m.size ∧
        (pathSize.toNat = 0 ∨ 60 + pathStart.toNat + pathSize.toNat + trailerSize ≤ m.size ∧
          0 ∈ m.slice (60 + pathStart.toNat) pathSize.toNat) ∧
        60 + detailStart.toNat + detailSize.toNat + trailerSize ≤ m.size := by
  -- The detail is looked at after the path, whether there is a path or not.
  have hdetail : (m.expectSize op ⟨52, 4⟩ >>= fun start => m.expectSize op ⟨56, 4⟩ >>= fun size =>
      m.requireRegion op 60 start size "event") = .ok () ↔ ∃ start size : UInt32,
        m.Holds 52 (u32Bytes start) ∧ m.Holds 56 (u32Bytes size) ∧
          60 + start.toNat + size.toNat + trailerSize ≤ m.size := by
    simp only [bind_eq_ok, expectSize_eq_ok, requireRegion_eq_ok (show 0 < 60 by decide) hmax]
    constructor
    · rintro ⟨-, ⟨start, hstart, rfl⟩, -, ⟨size, hsize, rfl⟩, hfits⟩
      exact ⟨start, size, hstart, hsize, hfits⟩
    · rintro ⟨start, size, hstart, hsize, hfits⟩
      exact ⟨_, ⟨start, hstart, rfl⟩, _, ⟨size, hsize, rfl⟩, hfits⟩
  simp only [verifyEvent, bind_eq_ok, requireField_eq_ok, Layout.Event.detailSize,
    Layout.Event.detailStart, Layout.Event.pathSize, Layout.Event.pathStart,
    Layout.Event.checksumSize, Layout.Event.checksumStart, Layout.Event.payload, expectSize_eq_ok,
    requireRegion_eq_ok (show 0 < 60 by decide) hmax]
  constructor
  · rintro ⟨-, -, -, ⟨checksumStart, h36, rfl⟩, -, ⟨checksumSize, h40, rfl⟩, -, hchecksum,
      -, ⟨pathStart, h44, rfl⟩, -, ⟨pathSize, h48, rfl⟩, hrest⟩
    split at hrest
    · obtain ⟨detailStart, detailSize, h52, h56, hfits⟩ := hdetail.mp hrest
      exact ⟨checksumStart, checksumSize, pathStart, pathSize, detailStart, detailSize,
        ⟨h36, h40, h44, h48, h52, h56⟩, hchecksum, .inl ‹_›, hfits⟩
    · obtain ⟨⟨⟩, hpath, hrest⟩ := bind_eq_ok.mp hrest
      obtain ⟨detailStart, detailSize, h52, h56, hfits⟩ := hdetail.mp hrest
      exact ⟨checksumStart, checksumSize, pathStart, pathSize, detailStart, detailSize,
        ⟨h36, h40, h44, h48, h52, h56⟩, hchecksum,
        .inr ((requireString_eq_ok (by decide) hmax).mp hpath), hfits⟩
  · rintro ⟨checksumStart, checksumSize, pathStart, pathSize, detailStart, detailSize,
      ⟨h36, h40, h44, h48, h52, h56⟩, hchecksum, hpath, hfits⟩
    have hrest := hdetail.mpr ⟨detailStart, detailSize, h52, h56, hfits⟩
    refine ⟨(), h56.fits, _, ⟨checksumStart, h36, rfl⟩, _, ⟨checksumSize, h40, rfl⟩, (), hchecksum,
      _, ⟨pathStart, h44, rfl⟩, _, ⟨pathSize, h48, rfl⟩, ?_⟩
    split
    · exact hrest
    · have htext : m.requireString op 60 pathStart.toNat pathSize.toNat "path" = .ok () :=
        (requireString_eq_ok (by decide) hmax).mpr (hpath.resolve_left ‹_›)
      exact bind_eq_ok.mpr ⟨(), htext, hrest⟩

theorem verifyCsumRequest_eq_ok (hmax : m.size ≤ maxSize) :
    m.verifyCsumRequest = .ok () ↔ ∃ keyId path : UInt32,
      m.Holds 24 (u32Bytes keyId) ∧ m.Holds 28 (u32Bytes path) ∧
        32 + keyId.toNat + path.toNat + trailerSize ≤ m.size ∧
        0 ∈ m.slice (32 + keyId.toNat) path.toNat := by
  simp only [verifyCsumRequest, bind_eq_ok, requireField_eq_ok, Layout.CsumRequest.keyIdSize,
    Layout.CsumRequest.pathSize, Layout.CsumRequest.payload, expectSize_eq_ok,
    requireRegion_eq_ok (show 0 < 32 by decide) hmax,
    requireString_eq_ok (show 0 < 32 by decide) hmax]
  constructor
  · rintro ⟨-, -, -, ⟨keyId, hkeyId, rfl⟩, -, ⟨path, hpath, rfl⟩, -, -, htext⟩
    exact ⟨keyId, path, hkeyId, hpath, htext⟩
  · rintro ⟨keyId, path, hkeyId, hpath, hfits, hzero⟩
    exact ⟨(), hpath.fits, _, ⟨keyId, hkeyId, rfl⟩, _, ⟨path, hpath, rfl⟩, (), by omega, hfits,
      hzero⟩

theorem verifyStringList_eq_ok :
    m.verifyStringList = .ok () ↔
      24 ≤ m.size ∧ (m.slice 20 (m.bodySize - 20)).getLast?.getD 0 = 0 := by
  simp only [verifyStringList, bind_eq_ok, requireField_eq_ok, expect_eq_ok, require_eq_ok, tail?,
    HasField, Layout.StringList.flags, Layout.StringList.payload, trailerSize]
  constructor
  · rintro ⟨-, hfits, payload, hpayload, hlast⟩
    obtain ⟨-, hpayload⟩ := Option.ite_none_right_eq_some.mp hpayload
    rw [Option.some.inj hpayload]
    exact ⟨hfits, hlast⟩
  · rintro ⟨hfits, hlast⟩
    refine ⟨(), hfits, _, if_pos ?_, hlast⟩
    simp only [bodySize, trailerSize]
    omega

theorem verifyCsumMultiRequest_eq_ok (hmax : m.size ≤ maxSize) :
    m.verifyCsumMultiRequest = .ok () ↔ ∃ keyId count : UInt32,
      m.Holds 24 (u32Bytes keyId) ∧ m.Holds 28 (u32Bytes count) ∧
        32 + keyId.toNat + trailerSize ≤ m.size ∧
        m.verifyRequestRecords count.toNat 0 keyId.toNat = .ok () := by
  simp only [verifyCsumMultiRequest, bind_eq_ok, requireField_eq_ok,
    Layout.CsumMultiRequest.keyIdSize, Layout.CsumMultiRequest.count,
    Layout.CsumMultiRequest.payload, expectSize_eq_ok,
    requireRegion_eq_ok (show 0 < 32 by decide) hmax]
  constructor
  · rintro ⟨-, -, -, ⟨keyId, hkeyId, rfl⟩, -, ⟨count, hcount, rfl⟩, -, hfits, hrecords⟩
    exact ⟨keyId, count, hkeyId, hcount, hfits, hrecords⟩
  · rintro ⟨keyId, count, hkeyId, hcount, hfits, hrecords⟩
    exact ⟨(), hcount.fits, _, ⟨keyId, hkeyId, rfl⟩, _, ⟨count, hcount, rfl⟩, (), hfits, hrecords⟩

theorem verifyCsumMultiReply_eq_ok :
    m.verifyCsumMultiReply = .ok () ↔ ∃ count : UInt32, m.Holds 24 (u32Bytes count) ∧
      m.verifyReplyRecords count.toNat 0 0 = .ok () := by
  simp only [verifyCsumMultiReply, bind_eq_ok, requireField_eq_ok, Layout.CsumMultiReply.count,
    expectSize_eq_ok]
  constructor
  · rintro ⟨-, -, -, ⟨count, hcount, rfl⟩, hrecords⟩
    exact ⟨count, hcount, hrecords⟩
  · rintro ⟨count, hcount, hrecords⟩
    exact ⟨(), hcount.fits, _, ⟨count, hcount, rfl⟩, hrecords⟩

end Kinds

theorem u32At?_eq_some {start place : Nat} {n : UInt32} :
    m.u32At? start ⟨place, 4⟩ = some n ↔ m.Holds (start + place) (u32Bytes n) :=
  u32?_eq_some

theorem verifyRequestRecords_succ_eq_ok (hmax : m.size ≤ maxSize) {count index cursor : Nat} :
    m.verifyRequestRecords (count + 1) index cursor = .ok () ↔ ∃ size checksum path : UInt32,
      m.Holds (32 + cursor + 0) (u32Bytes size) ∧ m.Holds (32 + cursor + 8) (u32Bytes checksum) ∧
        m.Holds (32 + cursor + 12) (u32Bytes path) ∧
        16 + checksum.toNat + path.toNat = size.toNat ∧
        32 + cursor + size.toNat + trailerSize ≤ m.size ∧
        0 ∈ m.slice (32 + cursor + 16 + checksum.toNat) path.toNat ∧
        m.verifyRequestRecords count (index + 1) (cursor + size.toNat) = .ok () := by
  simp only [verifyRequestRecords, bind_eq_ok, expect_eq_ok, require_eq_ok]
  simp only [Layout.CsumMultiRequest.payload, Layout.RequestRecord.payload, Layout.RequestRecord.size,
    Layout.RequestRecord.checksumSize, Layout.RequestRecord.pathSize, u32At?_eq_some,
    hasRegion_iff (show 0 < 32 by decide) hmax,
    requireRegion_eq_ok (show 0 < 32 by decide) hmax,
    requireString_eq_ok (show 0 < 32 by decide) hmax, ← Nat.add_assoc]
  constructor
  · rintro ⟨-, -, size, hsize, checksum, hchecksum, path, hpath, -, htotal, -, -, -,
      ⟨hfits, hzero⟩, hrest⟩
    exact ⟨size, checksum, path, hsize, hchecksum, hpath, htotal, by omega, hzero, hrest⟩
  · rintro ⟨size, checksum, path, hsize, hchecksum, hpath, htotal, hfits, hzero, hrest⟩
    exact ⟨(), by omega, size, hsize, checksum, hchecksum, path, hpath, (), htotal, (), by omega,
      (), ⟨by omega, hzero⟩, hrest⟩

theorem verifyReplyRecords_succ_eq_ok (hmax : m.size ≤ maxSize) {count index cursor : Nat} :
    m.verifyReplyRecords (count + 1) index cursor = .ok () ↔ ∃ size checksum : UInt32,
      m.Holds (28 + cursor + 0) (u32Bytes size) ∧ m.Holds (28 + cursor + 12) (u32Bytes checksum) ∧
        16 + checksum.toNat = size.toNat ∧
        28 + cursor + size.toNat + trailerSize ≤ m.size ∧
        m.verifyReplyRecords count (index + 1) (cursor + size.toNat) = .ok () := by
  simp only [verifyReplyRecords, bind_eq_ok, expect_eq_ok, require_eq_ok]
  simp only [Layout.CsumMultiReply.payload, Layout.ReplyRecord.payload, Layout.ReplyRecord.size,
    Layout.ReplyRecord.checksumSize, u32At?_eq_some, hasRegion_iff (show 0 < 28 by decide) hmax,
    requireRegion_eq_ok (show 0 < 28 by decide) hmax]
  constructor
  · rintro ⟨-, -, size, hsize, checksum, hchecksum, -, htotal, -, hfits, hrest⟩
    exact ⟨size, checksum, hsize, hchecksum, htotal, by omega, hrest⟩
  · rintro ⟨size, checksum, hsize, hchecksum, htotal, hfits, hrest⟩
    exact ⟨(), by omega, size, hsize, checksum, hchecksum, (), htotal, (), by omega, hrest⟩

theorem opcode?_eq_some {code : UInt32} : m.opcode? = some code ↔ m.Holds 4 (u32Bytes code) :=
  u32?_eq_some

theorem verify_eq_ok :
    m.verify = .ok () ↔ minSize ≤ m.size ∧ m.size ≤ maxSize ∧
      m.Holds 0 (BigEndian.encode 4 m.size) ∧
      ∃ op : Opcode, m.Holds 4 (u32Bytes op.code) ∧ m.verifyLayout op = .ok () := by
  simp only [verify, bind_eq_ok, require_eq_ok, expect_eq_ok, declaredSize?, lengthField,
    u32?_eq_some, opcode?_eq_some, Opcode.ofCode?_eq_some]
  constructor
  · rintro ⟨-, hmin, -, hmax, declared, hdeclared, -, hsize, -, hcode, op, rfl, hlayout⟩
    exact ⟨hmin, hmax, hsize ▸ hdeclared, op, hcode, hlayout⟩
  · rintro ⟨hmin, hmax, hdeclared, op, hcode, hlayout⟩
    have hword : (UInt32.ofNat m.size).toNat = m.size :=
      UInt32.toNat_ofNat_of_lt' (Nat.lt_of_le_of_lt hmax (by decide))
    refine ⟨(), hmin, (), hmax, UInt32.ofNat m.size, ?_, (), hword, _, hcode, op, rfl, hlayout⟩
    rwa [u32Bytes, hword]

end Message

end Arbiter
