import Mathlib.Data.List.TakeWhile
import Arbiter.Proofs.Message.Composition

/-!
Reading back what was written, field by field: numbers, regions, texts, lists of strings and lists
of records. A text is read up to its first zero byte; the lists come back with as many elements, in
the same order.
-/

namespace Arbiter

def RequestRecord.cut (r : RequestRecord) : RequestRecord :=
  { r with path := Message.untilZero r.path }

namespace Message

theorem untilZero_terminated (text : Bytes) : untilZero (terminated text) = untilZero text := by
  induction text with
  | nil => rfl
  | cons b text ih =>
    simp only [untilZero, terminated, List.cons_append, List.takeWhile_cons]
    split
    · exact congrArg (b :: ·) ih
    · rfl

theorem untilZero_of_not_mem {text : Bytes} (h : 0 ∉ text) : untilZero text = text := by
  rw [untilZero, List.takeWhile_eq_self_iff]
  intro b hb
  rw [bne_iff_ne]
  rintro rfl
  exact h hb

theorem zero_mem_terminated (text : Bytes) : 0 ∈ terminated text :=
  List.mem_append_right _ (List.mem_singleton_self 0)

theorem dropLast_terminated {strings : List Bytes} (h : strings ≠ []) :
    (strings.flatMap terminated).dropLast = [0].intercalate strings := by
  induction strings with
  | nil => exact absurd rfl h
  | cons s strings ih =>
    cases strings with
    | nil => simp [terminated]
    | cons s' strings =>
      have hne : (s' :: strings).flatMap terminated ≠ [] := by simp [terminated]
      rw [List.flatMap_cons, List.dropLast_append_of_ne_nil hne, ih (by simp), terminated,
        List.intercalate_cons_cons]

theorem splitStrings_terminated {strings : List Bytes} (h : ∀ s ∈ strings, 0 ∉ s) :
    splitStrings (strings.flatMap terminated) = strings := by
  cases strings with
  | nil => rfl
  | cons s strings =>
    have hne : (s :: strings).flatMap terminated ≠ [] := by simp [terminated]
    rw [splitStrings, if_neg (by simpa using hne), dropLast_terminated (by simp)]
    exact List.splitOn_intercalate 0 h (by simp)

theorem getLast?_terminated (strings : List Bytes) :
    (strings.flatMap terminated).getLast?.getD 0 = 0 := by
  induction strings with
  | nil => rfl
  | cons s strings ih =>
    rw [List.flatMap_cons, List.getLast?_append]
    cases hlast : (strings.flatMap terminated).getLast? with
    | none => simp [terminated]
    | some b => simpa [hlast] using ih

namespace Holds

variable {m : Message} {offset : Nat} {bs : Bytes}

theorem readU32 {n : UInt32} (h : m.Holds offset (u32Bytes n)) :
    m.readU32 ⟨offset, 4⟩ = .ok n := by
  rw [Message.readU32, h.u32?, expect_some]

theorem readI32 {n : Int32} (h : m.Holds offset (i32Bytes n)) :
    m.readI32 ⟨offset, 4⟩ = .ok n := by
  rw [Message.readI32, h.i32?, expect_some]

theorem readToken {n : UInt64} (h : m.Holds 8 (u64Bytes n)) : m.readToken = .ok n := by
  have htoken : m.u64? Layout.token = some n := h.u64?
  rw [Message.readToken, Message.readU64, htoken, expect_some]

theorem requireField {n : UInt32} (h : m.Holds offset (u32Bytes n)) (op : Opcode) :
    m.requireField op ⟨offset, 4⟩ = .ok () := by
  have hfits := h.fits
  rw [length_u32Bytes] at hfits
  exact require_of hfits _

theorem requireSizeField {n : Nat} (h : m.Holds offset (sizeBytes n)) (op : Opcode) :
    m.requireField op ⟨offset, 4⟩ = .ok () := by
  have hfits := h.fits
  rw [sizeBytes, BigEndian.length_encode] at hfits
  exact require_of hfits _

theorem sizeField {n : Nat} (h : m.Holds offset (sizeBytes n)) (hn : n ≤ maxSize) :
    (m.u32? ⟨offset, 4⟩).map UInt32.toNat = some n := by
  obtain ⟨size, hsize, rfl⟩ := h.size? hn
  rw [hsize, Option.map_some]

section Region

variable {base start : Nat} (op : Opcode) (region : String)

theorem requireRegion (h : m.Holds (base + start) bs) (hmax : m.size ≤ maxSize) :
    m.requireRegion op base start bs.length region = .ok () :=
  require_of (h.hasRegion hmax) _

theorem readRegion (h : m.Holds (base + start) bs) (hmax : m.size ≤ maxSize) :
    m.readRegion op base start bs.length region = .ok bs := by
  rw [Message.readRegion, h.region? hmax, expect_some]

theorem requireString {text : Bytes} (h : m.Holds (base + start) (terminated text))
    (hmax : m.size ≤ maxSize) :
    m.requireString op base start (terminated text).length region = .ok () := by
  rw [Message.requireString, h.region? hmax, expect_some, ok_bind]
  exact require_of (zero_mem_terminated text) _

end Region

theorem length_le (h : m.Holds offset bs) (hmax : m.size ≤ maxSize) : bs.length ≤ maxSize := by
  have hfits := h.fits
  omega

end Holds

section Sizes

variable {m : Message} {f : Field} {n : Nat}

theorem expectSize_of_size (h : (m.u32? f).map UInt32.toNat = some n) (op : Opcode) :
    m.expectSize op f = .ok n := by
  rw [expectSize, h, expect_some]

theorem readSize_of_size (h : (m.u32? f).map UInt32.toNat = some n) : m.readSize f = .ok n := by
  obtain ⟨size, hsize, rfl⟩ := Option.map_eq_some_iff.mp h
  rw [readSize, readU32, hsize, expect_some]
  rfl

end Sizes

theorem requestRecord_eq_ok {r : RequestRecord} {bytes : Bytes}
    (h : requestRecord r = .ok bytes) :
    bytes = sizeBytes (Layout.RequestRecord.payload + r.checksum.length +
        (terminated r.path).length) ++ (u32Bytes r.index ++ (sizeBytes r.checksum.length ++
      (sizeBytes (terminated r.path).length ++ (r.checksum ++ terminated r.path)))) := by
  simp only [requestRecord] at h
  split at h
  · exact (Except.ok.inj h).symm
  · cases h

theorem replyRecord_eq_ok {r : ReplyRecord} {bytes : Bytes} (h : replyRecord r = .ok bytes) :
    bytes = sizeBytes (Layout.ReplyRecord.payload + r.checksum.length) ++ (u32Bytes r.index ++
      (i32Bytes r.error ++ (sizeBytes r.checksum.length ++ r.checksum))) := by
  simp only [replyRecord] at h
  split at h
  · exact (Except.ok.inj h).symm
  · cases h

theorem one_le_length_requestRecord (r : RequestRecord) (bytes : Bytes)
    (h : requestRecord r = .ok bytes) : 1 ≤ bytes.length := by
  rw [requestRecord_eq_ok h]
  simp [sizeBytes]
  omega

theorem one_le_length_replyRecord (r : ReplyRecord) (bytes : Bytes)
    (h : replyRecord r = .ok bytes) : 1 ≤ bytes.length := by
  rw [replyRecord_eq_ok h]
  simp [sizeBytes]
  omega

theorem mapM_cons_eq_ok {α : Type} {write : α → Except Fault Bytes} {r : α} {records : List α}
    {encoded : List Bytes} (h : (r :: records).mapM write = .ok encoded) :
    ∃ bytes rest, write r = .ok bytes ∧ records.mapM write = .ok rest ∧
      encoded = bytes :: rest := by
  rw [List.mapM_cons] at h
  cases hwrite : write r with
  | error fault => simp [hwrite, bind, Except.bind] at h
  | ok bytes =>
    cases hrest : records.mapM write with
    | error fault => simp [hwrite, hrest, bind, Except.bind] at h
    | ok rest =>
      simp only [hwrite, hrest, ok_bind] at h
      exact ⟨bytes, rest, rfl, rfl, (Except.ok.inj h).symm⟩

section Lists

variable {m : Message}

theorem requestRecords_of_holds (hmax : m.size ≤ maxSize) {records : List RequestRecord}
    {encoded : List Bytes} (hwrite : records.mapM requestRecord = .ok encoded) {cursor : Nat}
    (h : m.Holds (Layout.CsumMultiRequest.payload + cursor) encoded.flatten) (index : Nat) :
    m.verifyRequestRecords records.length index cursor = .ok () ∧
      m.readRequestRecords records.length index cursor = .ok (records.map RequestRecord.cut) := by
  induction records generalizing encoded cursor index with
  | nil => exact ⟨rfl, rfl⟩
  | cons r records ih =>
    obtain ⟨bytes, rest, hbytes, hrest, rfl⟩ := mapM_cons_eq_ok hwrite
    have hrecord := requestRecord_eq_ok hbytes
    have hlength : bytes.length = Layout.RequestRecord.payload + r.checksum.length +
        (terminated r.path).length := by
      simp [hrecord, sizeBytes, Layout.RequestRecord.payload]
      omega
    rw [List.flatten_cons] at h
    -- The next record starts where the length of this one says.
    have hnext := h.right.congr (Nat.add_assoc ..)
    rw [hlength] at hnext
    obtain ⟨hverify, hread⟩ := ih hrest hnext (index + 1)
    have hfields := h.left
    have hbound := hfields.length_le hmax
    rw [hlength] at hbound
    rw [hrecord] at hfields
    obtain ⟨size, hsize, hsizeEq⟩ := hfields.left.size? hbound
    obtain ⟨checksumSize, hchecksumSize, hchecksumEq⟩ :=
      hfields.right.right.left.size? (by omega)
    obtain ⟨pathSize, hpathSize, hpathEq⟩ := hfields.right.right.right.left.size? (by omega)
    have hnumber := hfields.right.left.u32?
    have hchecksum : m.Holds (Layout.CsumMultiRequest.payload +
        (cursor + Layout.RequestRecord.payload)) r.checksum :=
      hfields.right.right.right.right.left.congr
        (by simp [sizeBytes, Layout.RequestRecord.payload]; omega)
    have hpath : m.Holds (Layout.CsumMultiRequest.payload +
        (cursor + Layout.RequestRecord.payload + r.checksum.length)) (terminated r.path) :=
      hfields.right.right.right.right.right.congr
        (by simp [sizeBytes, Layout.RequestRecord.payload]; omega)
    have hheader :
        m.HasRegion Layout.CsumMultiRequest.payload cursor Layout.RequestRecord.payload := by
      obtain ⟨hregion, hbody⟩ := hchecksum.hasRegion hmax
      constructor <;> omega
    replace hsize : m.u32At? (Layout.CsumMultiRequest.payload + cursor)
        Layout.RequestRecord.size = some size := hsize
    replace hchecksumSize : m.u32At? (Layout.CsumMultiRequest.payload + cursor)
        Layout.RequestRecord.checksumSize = some checksumSize := hchecksumSize
    replace hpathSize : m.u32At? (Layout.CsumMultiRequest.payload + cursor)
        Layout.RequestRecord.pathSize = some pathSize := hpathSize
    replace hnumber : m.u32At? (Layout.CsumMultiRequest.payload + cursor)
        Layout.RequestRecord.index = some r.index := hnumber
    have htotal : Layout.RequestRecord.payload + checksumSize.toNat + pathSize.toNat =
        size.toNat := by
      rw [hsizeEq, hchecksumEq, hpathEq]
    constructor
    · simp only [List.length_cons, verifyRequestRecords, require_of hheader, hsize,
        hchecksumSize, hpathSize, expect_some, ok_bind, require_of htotal]
      simp only [hchecksumEq, hpathEq, hsizeEq, hchecksum.requireRegion _ _ hmax, ok_bind,
        hpath.requireString _ _ hmax, hverify]
    · simp only [List.length_cons, readRequestRecords, hsize, hchecksumSize, hpathSize, hnumber,
        expect_some, ok_bind, hsizeEq, hchecksumEq, hpathEq, hchecksum.readRegion _ _ hmax,
        hpath.readRegion _ _ hmax, hread, untilZero_terminated]
      rfl

theorem replyRecords_of_holds (hmax : m.size ≤ maxSize) {records : List ReplyRecord}
    {encoded : List Bytes} (hwrite : records.mapM replyRecord = .ok encoded) {cursor : Nat}
    (h : m.Holds (Layout.CsumMultiReply.payload + cursor) encoded.flatten) (index : Nat) :
    m.verifyReplyRecords records.length index cursor = .ok () ∧
      m.readReplyRecords records.length index cursor = .ok records := by
  induction records generalizing encoded cursor index with
  | nil => exact ⟨rfl, rfl⟩
  | cons r records ih =>
    obtain ⟨bytes, rest, hbytes, hrest, rfl⟩ := mapM_cons_eq_ok hwrite
    have hrecord := replyRecord_eq_ok hbytes
    have hlength : bytes.length = Layout.ReplyRecord.payload + r.checksum.length := by
      simp [hrecord, sizeBytes, Layout.ReplyRecord.payload]
      omega
    rw [List.flatten_cons] at h
    have hnext := h.right.congr (Nat.add_assoc ..)
    rw [hlength] at hnext
    obtain ⟨hverify, hread⟩ := ih hrest hnext (index + 1)
    have hfields := h.left
    have hbound := hfields.length_le hmax
    rw [hlength] at hbound
    rw [hrecord] at hfields
    obtain ⟨size, hsize, hsizeEq⟩ := hfields.left.size? hbound
    obtain ⟨checksumSize, hchecksumSize, hchecksumEq⟩ :=
      hfields.right.right.right.left.size? (by omega)
    have hnumber := hfields.right.left.u32?
    have herror := hfields.right.right.left.u32?
    have hchecksum : m.Holds (Layout.CsumMultiReply.payload +
        (cursor + Layout.ReplyRecord.payload)) r.checksum :=
      hfields.right.right.right.right.congr
        (by simp [sizeBytes, Layout.ReplyRecord.payload]; omega)
    have hheader :
        m.HasRegion Layout.CsumMultiReply.payload cursor Layout.ReplyRecord.payload := by
      obtain ⟨hregion, hbody⟩ := hchecksum.hasRegion hmax
      constructor <;> omega
    replace hsize : m.u32At? (Layout.CsumMultiReply.payload + cursor)
        Layout.ReplyRecord.size = some size := hsize
    replace hchecksumSize : m.u32At? (Layout.CsumMultiReply.payload + cursor)
        Layout.ReplyRecord.checksumSize = some checksumSize := hchecksumSize
    replace hnumber : m.u32At? (Layout.CsumMultiReply.payload + cursor)
        Layout.ReplyRecord.index = some r.index := hnumber
    replace herror : m.u32At? (Layout.CsumMultiReply.payload + cursor)
        Layout.ReplyRecord.error = some r.error.toUInt32 := herror
    have htotal : Layout.ReplyRecord.payload + checksumSize.toNat = size.toNat := by
      rw [hsizeEq, hchecksumEq]
    constructor
    · simp only [List.length_cons, verifyReplyRecords, require_of hheader, hsize,
        hchecksumSize, expect_some, ok_bind, require_of htotal]
      simp only [hchecksumEq, hsizeEq, hchecksum.requireRegion _ _ hmax, ok_bind, hverify]
    · simp only [List.length_cons, readReplyRecords, hsize, hchecksumSize, hnumber, herror,
        expect_some, ok_bind, hsizeEq, hchecksumEq, hchecksum.readRegion _ _ hmax, hread]
      rfl

end Lists

end Message

end Arbiter
