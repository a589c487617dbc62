import Arbiter.Proofs.Message.Grammar
import Arbiter.Proofs.Message.Verification

/-!
Verification accepts exactly the grammar. What the checks say of bytes at offsets is read as a
split of the body: a part that reaches to the trailer is known by where it starts, so a body is the
concatenation of the parts that verification found in it.
-/

namespace Arbiter.Message

variable {m : Message} {offset : Nat} {bs : Bytes}

def Ends (m : Message) (offset : Nat) (bytes : Bytes) : Prop :=
  m.Holds offset bytes ∧ offset + bytes.length + trailerSize = m.size

theorem exists_ends (h : offset + trailerSize ≤ m.size) : ∃ bs, m.Ends offset bs := by
  have hlength : (m.slice offset (m.bodySize - offset)).length = m.bodySize - offset :=
    length_slice (by rw [bodySize]; omega)
  refine ⟨m.slice offset (m.bodySize - offset), holds_slice ?_, ?_⟩
  · rw [bodySize]
    omega
  · rw [hlength, bodySize]
    omega

theorem holds_nil : m.Holds offset [] ↔ offset + trailerSize ≤ m.size := by
  rw [holds_iff, slice_eq, List.length_nil, List.take_zero]
  simp

theorem holds_append {as : Bytes} :
    m.Holds offset (as ++ bs) ↔ m.Holds offset as ∧ m.Holds (offset + as.length) bs :=
  ⟨fun h => ⟨h.left, h.right⟩, fun h => h.1.append h.2⟩

theorem ends_append {as : Bytes} :
    m.Ends offset (as ++ bs) ↔ m.Holds offset as ∧ m.Ends (offset + as.length) bs := by
  rw [Ends, Ends, holds_append, List.length_append, and_assoc, Nat.add_assoc offset as.length]

theorem length_flatMap_u32Bytes (numbers : List UInt32) :
    (numbers.flatMap u32Bytes).length = 4 * numbers.length := by
  induction numbers with
  | nil => rfl
  | cons n numbers ih =>
    rw [List.flatMap_cons, List.length_append, length_u32Bytes, ih, List.length_cons]
    omega

theorem Holds.slice_within (h : m.Holds offset bs) {start count : Nat}
    (hcount : start + count ≤ bs.length) :
    m.slice (offset + start) count = (bs.drop start).take count := by
  have hmin : min count (bs.length - start) = count := Nat.min_eq_left (by omega)
  calc m.slice (offset + start) count
      = ((m.slice offset bs.length).drop start).take count := by
        rw [Message.slice_eq, Message.slice_eq, List.drop_take, List.take_take, hmin,
          List.drop_drop]
    _ = (bs.drop start).take count := by rw [h.slice_eq]

namespace Ends

theorem fits (h : m.Ends offset bs) : offset + trailerSize ≤ m.size := by
  have hsize := h.2
  omega

theorem slice_eq (h : m.Ends offset bs) : m.slice offset (m.bodySize - offset) = bs := by
  have hsize := h.2
  have hlength : m.bodySize - offset = bs.length := by
    rw [bodySize]
    omega
  rw [hlength, h.1.slice_eq]

theorem unique {bs' : Bytes} (h : m.Ends offset bs) (h' : m.Ends offset bs') : bs = bs' := by
  have hsize := h.2
  have hsize' := h'.2
  exact h.1.unique h'.1 (by omega)

theorem split_iff (h : m.Ends offset bs) {width : Nat} {part payload : Bytes} :
    (∃ front : Bytes, front.length = width ∧ bs = front ++ (part ++ payload)) ↔
      m.Holds (offset + width) part ∧ m.Ends (offset + width + part.length) payload := by
  constructor
  · rintro ⟨front, rfl, rfl⟩
    rw [ends_append, ends_append] at h
    exact h.2
  · rintro ⟨hpart, hpayload⟩
    have hfits := hpayload.fits
    have hwidth : (m.slice offset width).length = width := length_slice (by omega)
    refine ⟨m.slice offset width, hwidth, h.unique ?_⟩
    rw [ends_append, ends_append, hwidth]
    exact ⟨holds_slice (by omega), hpart, hpayload⟩

theorem splits_iff (h : m.Ends offset bs) {width : Nat} {numbers : List UInt32} {payload : Bytes} :
    Grammar.Splits bs width numbers payload ↔
      m.Holds (offset + width) (numbers.flatMap u32Bytes) ∧
        m.Ends (offset + width + 4 * numbers.length) payload := by
  rw [Grammar.Splits, h.split_iff, length_flatMap_u32Bytes]

variable {payload : Bytes} {base : Nat} {start size : UInt32}

theorem within_iff (h : m.Ends base payload) :
    Grammar.Within payload start size ↔
      base + start.toNat + size.toNat + trailerSize ≤ m.size := by
  have hsize := h.2
  rw [Grammar.Within]
  omega

theorem text_iff (h : m.Ends base payload) :
    Grammar.Text payload start size ↔
      base + start.toNat + size.toNat + trailerSize ≤ m.size ∧
        0 ∈ m.slice (base + start.toNat) size.toNat := by
  rw [Grammar.Text, ← h.within_iff, and_congr_right_iff]
  intro hwithin
  rw [h.1.slice_within hwithin]

end Ends

section Records

variable {start : Nat}

theorem holds_record {a b c d : UInt32} :
    m.Holds start ([a, b, c, d].flatMap u32Bytes ++ bs) ↔
      m.Holds (start + 0) (u32Bytes a) ∧ m.Holds (start + 4) (u32Bytes b) ∧
        m.Holds (start + 8) (u32Bytes c) ∧ m.Holds (start + 12) (u32Bytes d) ∧
        m.Holds (start + 16) bs := by
  rw [holds_append, length_flatMap_u32Bytes]
  simp only [List.flatMap_cons, List.flatMap_nil, List.append_nil, holds_append, length_u32Bytes,
    Nat.add_assoc, Nat.reduceAdd, and_assoc]
  rfl

theorem length_record {a b c d : UInt32} :
    ([a, b, c, d].flatMap u32Bytes ++ bs).length = 16 + bs.length := by
  rw [List.length_append, length_flatMap_u32Bytes]
  rfl

theorem exists_requestRecord (P : Nat → Prop) :
    (∃ record, Grammar.IsRequestRecord record ∧ m.Holds start record ∧ P record.length) ↔
      ∃ size checksum path : UInt32, m.Holds (start + 0) (u32Bytes size) ∧
        m.Holds (start + 8) (u32Bytes checksum) ∧ m.Holds (start + 12) (u32Bytes path) ∧
        16 + checksum.toNat + path.toNat = size.toNat ∧ start + size.toNat + trailerSize ≤ m.size ∧
        0 ∈ m.slice (start + 16 + checksum.toNat) path.toNat ∧ P size.toNat := by
  constructor
  · rintro ⟨_, ⟨size, index, checksumSize, pathSize, checksum, path, rfl, hsize, hchecksum, hpath,
      hzero⟩, hholds, hrest⟩
    have hfits := hholds.fits
    rw [← hsize] at hfits hrest
    rw [length_record, List.length_append] at hsize
    obtain ⟨hsizeAt, -, hchecksumAt, hpathAt, hregions⟩ := holds_record.mp hholds
    refine ⟨size, checksumSize, pathSize, hsizeAt, hchecksumAt, hpathAt, by omega, hfits, ?_, hrest⟩
    rwa [hchecksum, hpath, hregions.right.slice_eq]
  · rintro ⟨size, checksum, path, hsize, hchecksum, hpath, htotal, hfits, hzero, hrest⟩
    obtain ⟨index, hindex⟩ : ∃ n, m.Holds (start + 4) (u32Bytes n) := exists_u32 (by omega)
    have hchecksumLength : (m.slice (start + 16) checksum.toNat).length = checksum.toNat :=
      length_slice (by omega)
    have hpathLength : (m.slice (start + 16 + checksum.toNat) path.toNat).length = path.toNat :=
      length_slice (by omega)
    have hregions : m.Holds (start + 16) (m.slice (start + 16) checksum.toNat ++
        m.slice (start + 16 + checksum.toNat) path.toNat) := by
      rw [holds_append, hchecksumLength]
      exact ⟨holds_slice (by omega), holds_slice (by omega)⟩
    have hlength : ([size, index, checksum, path].flatMap u32Bytes ++
        (m.slice (start + 16) checksum.toNat ++
          m.slice (start + 16 + checksum.toNat) path.toNat)).length = size.toNat := by
      rw [length_record, List.length_append]
      omega
    exact ⟨_, ⟨size, index, checksum, path, _, _, rfl, hlength.symm, hchecksumLength.symm,
      hpathLength.symm, hzero⟩, holds_record.mpr ⟨hsize, hindex, hchecksum, hpath, hregions⟩,
      hlength ▸ hrest⟩

theorem exists_replyRecord (P : Nat → Prop) :
    (∃ record, Grammar.IsReplyRecord record ∧ m.Holds start record ∧ P record.length) ↔
      ∃ size checksum : UInt32, m.Holds (start + 0) (u32Bytes size) ∧
        m.Holds (start + 12) (u32Bytes checksum) ∧ 16 + checksum.toNat = size.toNat ∧
        start + size.toNat + trailerSize ≤ m.size ∧ P size.toNat := by
  constructor
  · rintro ⟨_, ⟨size, index, error, checksumSize, checksum, rfl, hsize, hchecksum⟩, hholds,
      hrest⟩
    have hfits := hholds.fits
    rw [← hsize] at hfits hrest
    rw [length_record] at hsize
    obtain ⟨hsizeAt, -, -, hchecksumAt, -⟩ := holds_record.mp hholds
    exact ⟨size, checksumSize, hsizeAt, hchecksumAt, by omega, hfits, hrest⟩
  · rintro ⟨size, checksum, hsize, hchecksum, htotal, hfits, hrest⟩
    obtain ⟨index, hindex⟩ : ∃ n, m.Holds (start + 4) (u32Bytes n) := exists_u32 (by omega)
    obtain ⟨error, herror⟩ : ∃ n, m.Holds (start + 8) (u32Bytes n) := exists_u32 (by omega)
    have hchecksumLength : (m.slice (start + 16) checksum.toNat).length = checksum.toNat :=
      length_slice (by omega)
    have hlength : ([size, index, error, checksum].flatMap u32Bytes ++
        m.slice (start + 16) checksum.toNat).length = size.toNat := by
      rw [length_record]
      omega
    exact ⟨_, ⟨size, index, error, checksum, _, rfl, hlength.symm, hchecksumLength.symm⟩,
      holds_record.mpr ⟨hsize, hindex, herror, hchecksum, holds_slice (by omega)⟩,
      hlength ▸ hrest⟩

theorem records_iff {IsRecord : Bytes → Prop} {base : Nat} (check : Nat → Nat → Nat → Prop)
    (hzero : ∀ index cursor, check 0 index cursor)
    (hsucc : ∀ count index cursor, check (count + 1) index cursor ↔
      ∃ record, IsRecord record ∧ m.Holds (base + cursor) record ∧
        check count (index + 1) (cursor + record.length))
    {count index cursor : Nat} {payload : Bytes} (h : m.Ends (base + cursor) payload) :
    check count index cursor ↔ Grammar.Records IsRecord count payload := by
  induction count generalizing index cursor payload with
  | zero =>
    refine iff_of_true (hzero index cursor) ⟨[], payload, rfl, ?_, rfl⟩
    exact List.forall_mem_nil _
  | succ count ih =>
    rw [hsucc]
    constructor
    · rintro ⟨record, hrecord, hholds, hcheck⟩
      obtain ⟨rest, hrest⟩ : ∃ rest, m.Ends (base + cursor + record.length) rest :=
        exists_ends hholds.fits
      have hnext := hrest
      rw [Nat.add_assoc] at hnext
      obtain ⟨records, back, rfl, hrecords, rfl⟩ := (ih hnext).mp hcheck
      refine ⟨record :: records, back, rfl, List.forall_mem_cons.mpr ⟨hrecord, hrecords⟩, ?_⟩
      rw [List.flatten_cons, List.append_assoc]
      exact h.unique (ends_append.mpr ⟨hholds, hrest⟩)
    · rintro ⟨records, back, hlength, hrecords, rfl⟩
      cases records with
      | nil => cases hlength
      | cons record records =>
        obtain ⟨hrecord, hrecords⟩ := List.forall_mem_cons.mp hrecords
        rw [List.flatten_cons, List.append_assoc, ends_append, Nat.add_assoc] at h
        exact ⟨record, hrecord, h.1,
          (ih h.2).mpr ⟨records, back, Nat.succ.inj hlength, hrecords, rfl⟩⟩

section Loops

variable {count index cursor : Nat} {payload : Bytes}

theorem requestRecords_iff (hmax : m.size ≤ maxSize) (h : m.Ends (32 + cursor) payload) :
    m.verifyRequestRecords count index cursor = .ok () ↔
      Grammar.Records Grammar.IsRequestRecord count payload := by
  refine records_iff (fun count index cursor => m.verifyRequestRecords count index cursor = .ok ())
    (fun _ _ => rfl) ?_ h
  intro count index cursor
  rw [verifyRequestRecords_succ_eq_ok hmax]
  exact (exists_requestRecord fun size =>
    m.verifyRequestRecords count (index + 1) (cursor + size) = .ok ()).symm

theorem replyRecords_iff (hmax : m.size ≤ maxSize) (h : m.Ends (28 + cursor) payload) :
    m.verifyReplyRecords count index cursor = .ok () ↔
      Grammar.Records Grammar.IsReplyRecord count payload := by
  refine records_iff (fun count index cursor => m.verifyReplyRecords count index cursor = .ok ())
    (fun _ _ => rfl) ?_ h
  intro count index cursor
  rw [verifyReplyRecords_succ_eq_ok hmax]
  exact (exists_replyRecord fun size =>
    m.verifyReplyRecords count (index + 1) (cursor + size) = .ok ()).symm

end Loops

end Records

section Kinds

variable {op : Opcode} {body : Bytes}

theorem exact_iff (h : m.Ends 8 body) (size : Nat) :
    m.requireExact op (8 + size) = .ok () ↔ body.length = size := by
  have hsize := h.2
  rw [requireExact_eq_ok]
  omega

theorem verdicts_iff (h : m.Ends 8 body) (width size : Nat) :
    (m.requireExact op (8 + size) >>= fun _ => m.requireVerdict op ⟨8 + width, 4⟩) = .ok () ↔
      Grammar.Verdicts body width size := by
  simp only [bind_eq_ok, exact_iff h, requireVerdict_eq_ok, Grammar.Verdicts]
  constructor
  · rintro ⟨-, hsize, code, hholds, hcode⟩
    obtain ⟨back, hback⟩ : ∃ back, m.Ends (8 + width + (i32Bytes code).length) back :=
      exists_ends hholds.fits
    obtain ⟨front, hfront, hbody⟩ := h.split_iff.mpr ⟨hholds, hback⟩
    exact ⟨hsize, code, front, back, hcode, hfront, hbody⟩
  · rintro ⟨hsize, code, front, back, hcode, hfront, hbody⟩
    exact ⟨(), hsize, code, (h.split_iff.mp ⟨front, hfront, hbody⟩).1, hcode⟩

theorem authChallenge_iff (h : m.Ends 8 body) (hmax : m.size ≤ maxSize) :
    m.verifyAuthChallenge = .ok () ↔ Grammar.AuthChallenge body := by
  rw [verifyAuthChallenge_eq_ok hmax]
  simp only [Grammar.AuthChallenge, h.splits_iff, List.flatMap_cons, List.flatMap_nil, holds_append,
    length_u32Bytes, List.length_cons, List.length_nil, Nat.reduceAdd, Nat.reduceMul]
  constructor
  · rintro ⟨challenge, keyId, hchallenge, hkeyId, hfits⟩
    obtain ⟨payload, hpayload⟩ : ∃ payload, m.Ends 28 payload := exists_ends (by omega)
    exact ⟨challenge, keyId, payload, ⟨⟨hchallenge, hkeyId, holds_nil.mpr hpayload.fits⟩, hpayload⟩,
      hpayload.within_iff.mpr (by omega)⟩
  · rintro ⟨challenge, keyId, payload, ⟨⟨hchallenge, hkeyId, -⟩, hpayload⟩, hwithin⟩
    have hfits := hpayload.within_iff.mp hwithin
    exact ⟨challenge, keyId, hchallenge, hkeyId, by omega⟩

theorem registration_iff (h : m.Ends 8 body) (hmax : m.size ≤ maxSize) :
    m.verifyRegistration op = .ok () ↔ Grammar.Registration body := by
  rw [verifyRegistration_eq_ok hmax]
  simp only [Grammar.Registration, h.splits_iff, List.flatMap_cons, List.flatMap_nil, holds_append,
    length_u32Bytes, List.length_cons, List.length_nil, Nat.reduceAdd, Nat.reduceMul]
  constructor
  · rintro ⟨label, hlabel, htext⟩
    obtain ⟨payload, hpayload⟩ : ∃ payload, m.Ends 32 payload := exists_ends hlabel.fits
    exact ⟨label, payload, ⟨⟨hlabel, holds_nil.mpr hpayload.fits⟩, hpayload⟩,
      htext.imp UInt32.toNat_inj.mp hpayload.text_iff.mpr⟩
  · rintro ⟨label, payload, ⟨⟨hlabel, -⟩, hpayload⟩, htext⟩
    exact ⟨label, hlabel, htext.imp UInt32.toNat_inj.mpr hpayload.text_iff.mp⟩

theorem event_iff (h : m.Ends 8 body) (hmax : m.size ≤ maxSize) :
    m.verifyEvent op = .ok () ↔ Grammar.Event body := by
  rw [verifyEvent_eq_ok hmax]
  simp only [Grammar.Event, h.splits_iff, List.flatMap_cons, List.flatMap_nil, holds_append,
    length_u32Bytes, List.length_cons, List.length_nil, Nat.reduceAdd, Nat.reduceMul]
  constructor
  · rintro ⟨checksumStart, checksumSize, pathStart, pathSize, detailStart, detailSize,
      ⟨h36, h40, h44, h48, h52, h56⟩, hchecksum, hpath, hdetail⟩
    obtain ⟨payload, hpayload⟩ : ∃ payload, m.Ends 60 payload := exists_ends h56.fits
    exact ⟨checksumStart, checksumSize, pathStart, pathSize, detailStart, detailSize, payload,
      ⟨⟨h36, h40, h44, h48, h52, h56, holds_nil.mpr hpayload.fits⟩, hpayload⟩,
      hpayload.within_iff.mpr hchecksum, hpath.imp UInt32.toNat_inj.mp hpayload.text_iff.mpr,
      hpayload.within_iff.mpr hdetail⟩
  · rintro ⟨checksumStart, checksumSize, pathStart, pathSize, detailStart, detailSize, payload,
      ⟨⟨h36, h40, h44, h48, h52, h56, -⟩, hpayload⟩, hchecksum, hpath, hdetail⟩
    exact ⟨checksumStart, checksumSize, pathStart, pathSize, detailStart, detailSize,
      ⟨h36, h40, h44, h48, h52, h56⟩, hpayload.within_iff.mp hchecksum,
      hpath.imp UInt32.toNat_inj.mpr hpayload.text_iff.mp, hpayload.within_iff.mp hdetail⟩

theorem csumRequest_iff (h : m.Ends 8 body) (hmax : m.size ≤ maxSize) :
    m.verifyCsumRequest = .ok () ↔ Grammar.CsumRequest body := by
  rw [verifyCsumRequest_eq_ok hmax]
  simp only [Grammar.CsumRequest, h.splits_iff, List.flatMap_cons, List.flatMap_nil, holds_append,
    length_u32Bytes, List.length_cons, List.length_nil, Nat.reduceAdd, Nat.reduceMul]
  constructor
  · rintro ⟨keyId, path, hkeyId, hpath, htext⟩
    obtain ⟨payload, hpayload⟩ : ∃ payload, m.Ends 32 payload := exists_ends hpath.fits
    exact ⟨keyId, path, payload, ⟨⟨hkeyId, hpath, holds_nil.mpr hpayload.fits⟩, hpayload⟩,
      hpayload.text_iff.mpr htext⟩
  · rintro ⟨keyId, path, payload, ⟨⟨hkeyId, hpath, -⟩, hpayload⟩, htext⟩
    exact ⟨keyId, path, hkeyId, hpath, hpayload.text_iff.mp htext⟩

theorem getLast?_getD_eq_zero {bs : Bytes} :
    bs.getLast?.getD 0 = 0 ↔ bs = [] ∨ ∃ front, bs = front ++ [0] := by
  rcases List.eq_nil_or_concat bs with rfl | ⟨front, b, rfl⟩
  · simp
  · rw [List.concat_eq_append, List.getLast?_concat, Option.getD_some]
    constructor
    · rintro rfl
      exact .inr ⟨front, rfl⟩
    · rintro (hnil | ⟨front', hfront⟩)
      · simp at hnil
      · exact (List.cons.inj (List.append_inj_right' hfront rfl)).1

theorem stringList_iff (h : m.Ends 8 body) :
    m.verifyStringList = .ok () ↔ Grammar.StringList body := by
  rw [verifyStringList_eq_ok]
  simp only [Grammar.StringList, h.splits_iff, List.flatMap_nil, List.length_nil, Nat.reduceAdd,
    Nat.reduceMul, ← getLast?_getD_eq_zero]
  constructor
  · rintro ⟨hsize, hlast⟩
    obtain ⟨payload, hpayload⟩ : ∃ payload, m.Ends 20 payload := exists_ends hsize
    rw [hpayload.slice_eq] at hlast
    exact ⟨payload, ⟨holds_nil.mpr hsize, hpayload⟩, hlast⟩
  · rintro ⟨payload, ⟨-, hpayload⟩, hlast⟩
    rw [hpayload.slice_eq]
    exact ⟨hpayload.fits, hlast⟩

theorem csumMultiRequest_iff (h : m.Ends 8 body) (hmax : m.size ≤ maxSize) :
    m.verifyCsumMultiRequest = .ok () ↔ Grammar.CsumMultiRequest body := by
  rw [verifyCsumMultiRequest_eq_ok hmax]
  simp only [Grammar.CsumMultiRequest, h.splits_iff, List.flatMap_cons, List.flatMap_nil,
    holds_append, ends_append, length_u32Bytes, List.length_cons, List.length_nil, Nat.reduceAdd,
    Nat.reduceMul]
  constructor
  · rintro ⟨keyIdSize, count, hkeyIdSize, hcount, hfits, hrecords⟩
    have hlength : (m.slice 32 keyIdSize.toNat).length = keyIdSize.toNat :=
      length_slice (by omega)
    obtain ⟨payload, hpayload⟩ : ∃ payload, m.Ends (32 + keyIdSize.toNat) payload :=
      exists_ends hfits
    exact ⟨keyIdSize, count, m.slice 32 keyIdSize.toNat, payload,
      ⟨⟨hkeyIdSize, hcount, holds_nil.mpr (by omega)⟩, holds_slice hfits, hlength.symm ▸ hpayload⟩,
      hlength, (requestRecords_iff hmax hpayload).mp hrecords⟩
  · rintro ⟨keyIdSize, count, keyId, payload, ⟨⟨hkeyIdSize, hcount, -⟩, hkeyId, hpayload⟩, hlength,
      hrecords⟩
    rw [hlength] at hpayload
    exact ⟨keyIdSize, count, hkeyIdSize, hcount, hpayload.fits,
      (requestRecords_iff hmax hpayload).mpr hrecords⟩

theorem csumMultiReply_iff (h : m.Ends 8 body) (hmax : m.size ≤ maxSize) :
    m.verifyCsumMultiReply = .ok () ↔ Grammar.CsumMultiReply body := by
  rw [verifyCsumMultiReply_eq_ok]
  simp only [Grammar.CsumMultiReply, h.splits_iff, List.flatMap_cons, List.flatMap_nil,
    holds_append, length_u32Bytes, List.length_cons, List.length_nil, Nat.reduceAdd, Nat.reduceMul]
  constructor
  · rintro ⟨count, hcount, hrecords⟩
    obtain ⟨payload, hpayload⟩ : ∃ payload, m.Ends 28 payload := exists_ends hcount.fits
    exact ⟨count, payload, ⟨⟨hcount, holds_nil.mpr hpayload.fits⟩, hpayload⟩,
      (replyRecords_iff hmax hpayload).mp hrecords⟩
  · rintro ⟨count, payload, ⟨⟨hcount, -⟩, hpayload⟩, hrecords⟩
    exact ⟨count, hcount, (replyRecords_iff hmax hpayload).mpr hrecords⟩

theorem verifyLayout_iff (h : m.Ends 8 body) (hmax : m.size ≤ maxSize) :
    m.verifyLayout op = .ok () ↔ Grammar.Form op body := by
  cases op with
  | hello => exact exact_iff h 8
  | versel => exact exact_iff h 12
  | auth => exact exact_iff h 12
  | authChallenge => exact authChallenge_iff h hmax
  | reply => exact exact_iff h 16
  | close => exact exact_iff h 8
  | register => exact registration_iff h hmax
  | unregister => exact registration_iff h hmax
  | notify => exact event_iff h hmax
  | ask => exact event_iff h hmax
  | answer => exact verdicts_iff h 8 16
  | resultYou => exact verdicts_iff h 12 16
  | resultOther => exact verdicts_iff h 12 16
  | status => exact exact_iff h 16
  | csumRequest => exact csumRequest_iff h hmax
  | stringList => exact stringList_iff h
  | csumMultiRequest => exact csumMultiRequest_iff h hmax
  | csumMultiReply => exact csumMultiReply_iff h hmax
  | retired kind => exact iff_of_true rfl trivial

end Kinds

theorem ends_zero_iff : m.Ends 0 bs ↔
    ∃ trailer : Bytes, trailer.length = trailerSize ∧ m.toBytes = bs ++ trailer := by
  rw [Ends, size_eq_length]
  constructor
  · rintro ⟨⟨front, back, hbytes, hfront, -⟩, hsize⟩
    rw [List.length_eq_zero_iff] at hfront
    subst hfront
    rw [hbytes, List.nil_append, List.length_append] at hsize
    exact ⟨back, by omega, hbytes⟩
  · rintro ⟨trailer, htrailer, hbytes⟩
    refine ⟨⟨[], trailer, hbytes, rfl, Nat.le_of_eq htrailer.symm⟩, ?_⟩
    rw [hbytes, List.length_append]
    omega

theorem verify_eq_ok_iff_wellFormed (m : Message) :
    m.verify = .ok () ↔ Grammar.WellFormed m.toBytes := by
  rw [verify_eq_ok, Grammar.WellFormed, ← size_eq_length]
  constructor
  · rintro ⟨hmin, hmax, hsize, op, hcode, hlayout⟩
    obtain ⟨body, hbody⟩ : ∃ body, m.Ends 8 body := exists_ends hmin
    have hwhole : m.Ends 0 (BigEndian.encode 4 m.size ++ (u32Bytes op.code ++ body)) := by
      rw [ends_append, ends_append, BigEndian.length_encode, length_u32Bytes]
      exact ⟨hsize, hcode, hbody⟩
    obtain ⟨trailer, htrailer, hbytes⟩ := ends_zero_iff.mp hwhole
    refine ⟨hmin, hmax, op, body, trailer, htrailer, (verifyLayout_iff hbody hmax).mp hlayout, ?_⟩
    rw [hbytes, List.append_assoc, List.append_assoc]
  · rintro ⟨hmin, hmax, op, body, trailer, htrailer, hform, hbytes⟩
    rw [← List.append_assoc (u32Bytes _), ← List.append_assoc] at hbytes
    have hwhole := ends_zero_iff.mpr ⟨trailer, htrailer, hbytes⟩
    rw [ends_append, ends_append, BigEndian.length_encode, length_u32Bytes] at hwhole
    obtain ⟨hsize, hcode, hbody⟩ := hwhole
    exact ⟨hmin, hmax, hsize, op, hcode, (verifyLayout_iff hbody hmax).mpr hform⟩

end Arbiter.Message
