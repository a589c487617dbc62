import Arbiter.Proofs.Message.Extent
import Arbiter.Proofs.Message.Headers

/-!
Messages cut short. The lengths that a message declares inside its body are kept by a cut, and in
what is written the last region ends where the body does, so the cut leaves a region without room.
A list of strings declares no length but that of the whole, and is cut in two wherever a string
ends.
-/

namespace Arbiter

namespace Message

variable {t m : Message} {offset n : Nat} {bs : Bytes}

theorem forall_of_mapM {α : Type} {write : α → Except Fault Bytes} {P : α → Prop}
    (hwrite : ∀ {r bytes}, write r = .ok bytes → P r) {records : List α} {encoded : List Bytes}
    (h : records.mapM write = .ok encoded) : ∀ r ∈ records, P r := by
  induction records generalizing encoded with
  | nil => exact List.forall_mem_nil _
  | cons r records ih =>
    obtain ⟨bytes, rest, hbytes, hrest, rfl⟩ := mapM_cons_eq_ok h
    exact List.forall_mem_cons.mpr ⟨hwrite hbytes, ih hrest⟩

theorem size_of_requestRecord {r : RequestRecord} (h : requestRecord r = .ok bs) :
    r.size < UInt32.size := by
  simp only [requestRecord] at h
  split at h
  · rwa [RequestRecord.size, ← length_terminated]
  · cases h

theorem size_of_replyRecord {r : ReplyRecord} (h : replyRecord r = .ok bs) :
    r.size < UInt32.size := by
  simp only [replyRecord] at h
  split at h
  · assumption
  · cases h

theorem starts_requestRecord {r : RequestRecord} (h : requestRecord r = .ok bs) :
    ∃ rest, bs = sizeBytes bs.length ++ rest := by
  have hform := requestRecord_eq_ok h
  have hlength : bs.length = Layout.RequestRecord.payload + r.checksum.length +
      (terminated r.path).length := by
    rw [hform]
    simp [sizeBytes, Layout.RequestRecord.payload]
    omega
  rw [← hlength] at hform
  exact ⟨_, hform⟩

theorem starts_replyRecord {r : ReplyRecord} (h : replyRecord r = .ok bs) :
    ∃ rest, bs = sizeBytes bs.length ++ rest := by
  have hform := replyRecord_eq_ok h
  have hlength : bs.length = Layout.ReplyRecord.payload + r.checksum.length := by
    rw [hform]
    simp [sizeBytes, Layout.ReplyRecord.payload]
    omega
  rw [← hlength] at hform
  exact ⟨_, hform⟩

/-- What `t` has between its length and its trailer stands in `m` at the same places. -/
structure Front (t m : Message) : Prop where
  size : t.size ≤ m.size
  bytes {i : Nat} : 4 ≤ i → i + trailerSize < t.size → t.bytes[i]? = m.bytes[i]?

namespace Front

theorem slice (ht : Front t m) {start count : Nat} (hstart : 4 ≤ start)
    (hfits : start + count + trailerSize ≤ t.size) : t.slice start count = m.slice start count :=
  slice_congr fun i hi _ => ht.bytes (by omega) (by omega)

theorem holds (ht : Front t m) (hoffset : 4 ≤ offset) (h : t.Holds offset bs) :
    m.Holds offset bs := by
  obtain ⟨hfits, hslice⟩ := holds_iff.mp h
  have hsize := ht.size
  exact holds_iff.mpr ⟨by omega, (ht.slice hoffset hfits).symm.trans hslice⟩

theorem number (ht : Front t m) (hoffset : 4 ≤ offset) {k : Nat} {number : UInt32}
    (h : t.Holds offset (u32Bytes number))
    (hwritten : (m.u32? ⟨offset, 4⟩).map UInt32.toNat = some k) : number.toNat = k := by
  rw [(ht.holds hoffset h).u32?, Option.map_some] at hwritten
  exact Option.some.inj hwritten

theorem verifyLayout (ht : Front t m) {op : Opcode} (hop : m.opcode? = some op.code)
    (hverify : t.verify = .ok ()) : t.verifyLayout op = .ok () := by
  obtain ⟨-, -, -, op', hcode, hlayout⟩ := verify_eq_ok.mp hverify
  have hcode' := opcode?_eq_some.mpr (ht.holds (by decide) hcode)
  rw [hop, Option.some.injEq, Opcode.code_inj] at hcode'
  exact hcode' ▸ hlayout

theorem fits_of_records {α : Type} {write : α → Except Fault Bytes} {base : Nat}
    (check : Nat → Nat → Nat → Prop)
    (hnext : ∀ {r bytes count index cursor}, write r = .ok bytes → m.Holds (base + cursor) bytes →
      check (count + 1) index cursor → base + cursor + bytes.length + trailerSize ≤ t.size ∧
        check count (index + 1) (cursor + bytes.length))
    {records : List α} {encoded : List Bytes} (hencoded : records.mapM write = .ok encoded)
    {index cursor : Nat} (hheld : m.Holds (base + cursor) encoded.flatten)
    (hstart : base + cursor + trailerSize ≤ t.size) (hcheck : check records.length index cursor) :
    base + cursor + encoded.flatten.length + trailerSize ≤ t.size := by
  induction records generalizing encoded index cursor with
  | nil =>
    obtain rfl : [] = encoded := Except.ok.inj hencoded
    exact hstart
  | cons r records ih =>
    obtain ⟨bytes, rest, hbytes, hrest, rfl⟩ := mapM_cons_eq_ok hencoded
    rw [List.flatten_cons] at hheld
    obtain ⟨hfits, hcheck⟩ := hnext hbytes hheld.left hcheck
    have hlast := ih hrest (hheld.right.congr (Nat.add_assoc ..)) (by omega) hcheck
    rw [List.flatten_cons, List.length_append]
    omega

theorem recordSize (ht : Front t m) (hmax : m.size ≤ maxSize) (hoffset : 4 ≤ offset)
    (hform : ∃ rest, bs = sizeBytes bs.length ++ rest) (hheld : m.Holds offset bs) {size : UInt32}
    (hsize : t.Holds offset (u32Bytes size)) : size.toNat = bs.length := by
  obtain ⟨rest, hform⟩ := hform
  have hbound := hheld.length_le hmax
  rw [hform] at hheld
  exact ht.number hoffset hsize (hheld.left.sizeField hbound)

theorem requestRecord (ht : Front t m) (hmax : m.size ≤ maxSize) {r : RequestRecord}
    {bytes : Bytes} {count index cursor : Nat} (hwrite : requestRecord r = .ok bytes)
    (hheld : m.Holds (32 + cursor) bytes)
    (hverify : t.verifyRequestRecords (count + 1) index cursor = .ok ()) :
    32 + cursor + bytes.length + trailerSize ≤ t.size ∧
      t.verifyRequestRecords count (index + 1) (cursor + bytes.length) = .ok () := by
  obtain ⟨size, -, -, hsize, -, -, -, hfits, -, hnext⟩ :=
    (verifyRequestRecords_succ_eq_ok (ht.size.trans hmax)).mp hverify
  rw [ht.recordSize hmax (by omega) (starts_requestRecord hwrite) hheld hsize] at hfits hnext
  exact ⟨hfits, hnext⟩

theorem replyRecord (ht : Front t m) (hmax : m.size ≤ maxSize) {r : ReplyRecord}
    {bytes : Bytes} {count index cursor : Nat} (hwrite : replyRecord r = .ok bytes)
    (hheld : m.Holds (28 + cursor) bytes)
    (hverify : t.verifyReplyRecords (count + 1) index cursor = .ok ()) :
    28 + cursor + bytes.length + trailerSize ≤ t.size ∧
      t.verifyReplyRecords count (index + 1) (cursor + bytes.length) = .ok () := by
  obtain ⟨size, -, hsize, -, -, hfits, hnext⟩ :=
    (verifyReplyRecords_succ_eq_ok (ht.size.trans hmax)).mp hverify
  rw [ht.recordSize hmax (by omega) (starts_replyRecord hwrite) hheld hsize] at hfits hnext
  exact ⟨hfits, hnext⟩

end Front

theorem toBytes_overwrite (m : Message) (bytes : Bytes) :
    (m.overwrite 0 bytes).toBytes = bytes ++ m.toBytes.drop bytes.length := by
  have hrest : (m.bytes.toList.drop bytes.length).length ≤ m.bytes.size - bytes.length := by
    rw [List.length_drop, Array.length_toList]
  simp only [overwrite, toBytes, Array.toList_append, Array.toList_extract,
    List.extract_eq_take_drop, List.drop_zero, Nat.zero_add, Nat.sub_zero, List.take_zero,
    List.nil_append, List.take_of_length_le hrest]

theorem toBytes_resize (m : Message) (hmin : headerSize ≤ n) (hmax : n + trailerSize ≤ maxSize) :
    ∃ m', m.resize n = .ok m' ∧ m'.toBytes = BigEndian.encode 4 (n + trailerSize) ++
      (m.toBytes.take (n + trailerSize) ++
        List.replicate (n + trailerSize - m.size) 0).drop 4 := by
  have hcheck : checkBodySize n = .ok () := by
    rw [checkBodySize, if_neg (Nat.not_lt.mpr hmin), if_neg (Nat.not_lt.mpr hmax)]
  have hkept : n + trailerSize - (m.bytes.extract 0 (n + trailerSize)).size =
      n + trailerSize - m.size := by
    rw [Array.size_extract, Nat.sub_zero, size]
    omega
  rw [resize, hcheck]
  refine ⟨_, rfl, ?_⟩
  simp only [lengthField, hkept]
  rw [toBytes_overwrite, BigEndian.length_encode]
  simp only [toBytes, Array.toList_append, Array.toList_extract, Array.toList_replicate,
    List.extract_eq_take_drop, List.drop_zero, Nat.sub_zero]

theorem toBytes_sealed_resize (hmin : headerSize ≤ n) (hcut : n + trailerSize ≤ m.size)
    (hmax : m.size ≤ maxSize) : ∃ cut trailer, m.resize n = .ok cut ∧
      trailer.length = trailerSize ∧ cut.sealed.toBytes =
        BigEndian.encode 4 (n + trailerSize) ++ ((m.toBytes.take n).drop 4 ++ trailer) := by
  obtain ⟨cut, hresize, hbytes⟩ := toBytes_resize m hmin (hcut.trans hmax)
  rw [Nat.sub_eq_zero_of_le hcut, List.replicate_zero, List.append_nil] at hbytes
  rw [size_eq_length] at hcut
  rw [headerSize] at hmin
  have htail : ((m.toBytes.drop n).take trailerSize).length = trailerSize := by
    rw [List.length_take, List.length_drop]
    omega
  have hfour : 4 ≤ (m.toBytes.take n).length := by
    rw [List.length_take]
    omega
  rw [List.take_add, List.drop_append_of_le_length hfour, ← List.append_assoc] at hbytes
  have hsealed := toBytes_sealed
    (BigEndian.encode 4 (n + trailerSize) ++ (m.toBytes.take n).drop 4) _ htail
  rw [← hbytes] at hsealed
  obtain ⟨trailer, htrailer, hsealed⟩ := hsealed
  refine ⟨cut, trailer, hresize, htrailer, ?_⟩
  rw [← List.append_assoc]
  exact hsealed

structure Cut (n : Nat) (m t : Message) : Prop where
  size : t.size = n + trailerSize
  sealed : t.Sealed
  declared : t.Holds 0 (sizeBytes t.size)
  front : Front t m

theorem cut_of_resize (hmin : headerSize ≤ n) (hcut : n + trailerSize ≤ m.size)
    (hmax : m.size ≤ maxSize) : ∃ cut, m.resize n = .ok cut ∧ Cut n m cut.sealed := by
  obtain ⟨cut, trailer, hresize, htrailer, hbytes⟩ := toBytes_sealed_resize hmin hcut hmax
  refine ⟨cut, hresize, ?_⟩
  rw [headerSize] at hmin
  have hkept : (m.toBytes.take n).length = n := by
    rw [List.length_take, ← size_eq_length]
    omega
  have hsize : cut.sealed.size = n + trailerSize := by
    rw [size_eq_length, hbytes, List.length_append, List.length_append, List.length_drop, hkept,
      BigEndian.length_encode, htrailer]
    omega
  have hroom : minSize ≤ cut.size := by
    rw [← size_sealed, hsize, minSize, headerSize]
    omega
  refine ⟨hsize, sealed_sealed hroom, ?_, hsize.trans_le hcut, fun {i} hi hfits => ?_⟩
  · rw [hsize]
    refine ⟨[], _, hbytes, rfl, ?_⟩
    rw [List.length_append, htrailer]
    omega
  · have hget : cut.sealed.toBytes[i]? = m.toBytes[i]? := by
      have hbefore : i - 4 < ((m.toBytes.take n).drop 4).length := by
        rw [List.length_drop, hkept]
        omega
      rw [hbytes, List.getElem?_append_right (by rw [BigEndian.length_encode]; exact hi),
        BigEndian.length_encode, List.getElem?_append_left hbefore, List.getElem?_drop,
        Nat.add_sub_cancel' hi, List.getElem?_take_of_lt (by omega)]
    rwa [toBytes, toBytes, Array.getElem?_toList, Array.getElem?_toList] at hget

theorem Cut.verify_iff (hc : Cut n m t) (hmin : headerSize ≤ n) (hmax : m.size ≤ maxSize)
    {op : Opcode} (hop : m.opcode? = some op.code) :
    t.verify = .ok () ↔ t.verifyLayout op = .ok () := by
  refine ⟨hc.front.verifyLayout hop, fun hlayout => ?_⟩
  have hsize := hc.size
  rw [headerSize] at hmin
  obtain ⟨code, hcode⟩ : ∃ code, t.Holds 4 (u32Bytes code) := exists_u32 (by omega)
  have hwhole := opcode?_eq_some.mpr (hc.front.holds (by decide) hcode)
  rw [hop, Option.some.injEq] at hwhole
  have hroom : minSize ≤ t.size := by
    rw [hsize, minSize, headerSize]
    omega
  exact verify_eq_ok.mpr
    ⟨hroom, hc.front.size.trans hmax, hc.declared, op, hwhole ▸ hcode, hlayout⟩

theorem getLast?_take_getD {p : Bytes} {k : Nat} (hk : k ≤ p.length) :
    (p.take k).getLast?.getD 0 = 0 ↔ k = 0 ∨ 0 < k ∧ p[k - 1]? = some 0 := by
  rw [List.getLast?_take]
  split
  · simp [*]
  · have hlast : p[k - 1]? = some p[k - 1] := List.getElem?_eq_getElem (by omega)
    have hpos : 0 < k := Nat.pos_of_ne_zero ‹_›
    simp [hlast, hpos, hpos.ne']

theorem Cut.verifyStringList_iff (hc : Cut n m t) {payload : Bytes}
    (hpayload : m.Holds 20 payload) (hend : m.size = 20 + payload.length + trailerSize) :
    t.verifyStringList = .ok () ↔ n = 20 ∨ 20 < n ∧ payload[n - 21]? = some 0 := by
  have hsize := hc.size
  have hwhole := hc.front.size
  rw [verifyStringList_eq_ok, hsize]
  by_cases hn : 20 ≤ n
  · have hslice : t.slice 20 (t.bodySize - 20) = payload.take (n - 20) := by
      have hbody : t.bodySize = n := by rw [bodySize, hsize, Nat.add_sub_cancel]
      have hmin : min (n - 20) payload.length = n - 20 := Nat.min_eq_left (by omega)
      calc t.slice 20 (t.bodySize - 20)
          = m.slice 20 (n - 20) := by rw [hbody, hc.front.slice (by decide) (by omega)]
        _ = (m.slice 20 payload.length).take (n - 20) := by
          rw [slice_eq, slice_eq, List.take_take, hmin]
        _ = payload.take (n - 20) := by rw [hpayload.slice_eq]
    have hroom : 24 ≤ n + trailerSize := Nat.add_le_add_right hn 4
    have hempty : n - 20 = 0 ↔ n = 20 := by omega
    have hsome : 0 < n - 20 ↔ 20 < n := by omega
    rw [hslice, getLast?_take_getD (by omega), hempty, hsome, show n - 20 - 1 = n - 21 by omega]
    exact and_iff_right hroom
  · refine iff_of_false (fun h => ?_) (by omega)
    have hroom := h.1
    simp only [trailerSize] at hroom
    omega

end Message

namespace Draft

open Message

variable {d : Draft} {t m : Message} {token : UInt64}

theorem encodable_of_write (h : d.write = .ok m) : d.Encodable := by
  cases d with
  | stringList token flags strings => exact (stringList_eq_ok h).1
  | csumMultiRequest token operation uid keyId records =>
    obtain ⟨encoded, hencoded, -⟩ := csumMultiRequest_eq_ok h
    exact forall_of_mapM size_of_requestRecord hencoded
  | csumMultiReply token operation error records =>
    obtain ⟨encoded, hencoded, -⟩ := csumMultiReply_eq_ok h
    exact forall_of_mapM size_of_replyRecord hencoded
  | _ => trivial

theorem size_of_write (h : d.write = .ok m) :
    m.size = d.bodySize + trailerSize ∧ m.size ≤ maxSize := by
  obtain ⟨op, fields, hwrite, hlength⟩ := write_eq_compose (encodable_of_write h)
  rw [h] at hwrite
  rw [← hlength]
  exact ⟨size_of_compose hwrite.symm, size_le_of_compose hwrite.symm⟩

theorem opcode?_of_write (h : d.write = .ok m) : m.opcode? = some d.content.opcode.code := by
  rw [opcode?_of_decode (decode_of_write h)]
  cases d <;> rfl

section Kinds

variable {op : Opcode}

theorem size_le_of_authChallenge {authType : UInt32} {challenge keyId : Bytes}
    (h : (authChallenge token authType challenge keyId).write = .ok m) (ht : Front t m)
    (hverify : t.verifyAuthChallenge = .ok ()) : m.size ≤ t.size := by
  obtain ⟨hsize, hmax⟩ := size_of_write h
  simp only [bodySize, Layout.AuthChallenge.payload] at hsize
  rw [write, Message.authChallenge] at h
  have hsizes := (holds_of_compose h).afterToken.afterU32
  obtain ⟨challengeSize, keyIdSize, hchallenge, hkeyId, hfits⟩ :=
    (verifyAuthChallenge_eq_ok (ht.size.trans hmax)).mp hverify
  have hchallengeSize := ht.number (by decide) hchallenge (hsizes.left.sizeField (by omega))
  have hkeyIdSize := ht.number (by decide) hkeyId (hsizes.afterSize.left.sizeField (by omega))
  omega

theorem size_le_of_registration {filter : Filter} {label : Option Bytes}
    (h : registration op token filter label = .ok m) (ht : Front t m)
    (hverify : t.verifyRegistration op = .ok ()) : m.size ≤ t.size := by
  unfold registration at h
  have hmax := size_le_of_compose h
  have hsize := size_of_compose h
  simp only [List.length_append, length_u64Bytes, length_u32Bytes, filterBytes, sizeBytes,
    BigEndian.length_encode, headerSize] at hsize
  have hsizes := (holds_of_compose h).afterToken.afterFilter
  obtain ⟨labelSize, hlabel, htext⟩ :=
    (verifyRegistration_eq_ok (ht.size.trans hmax)).mp hverify
  have hlabelSize := ht.number (by decide) hlabel (hsizes.left.sizeField (by omega))
  -- With no label the body ends behind its length, which is looked at all the same.
  have hfits := hlabel.fits
  rw [length_u32Bytes] at hfits
  rcases htext with hzero | ⟨hregion, -⟩ <;> omega

theorem size_le_of_event {e : Event} (h : (event e).write = .ok m) (ht : Front t m)
    (hverify : t.verifyEvent op = .ok ()) : m.size ≤ t.size := by
  obtain ⟨hsize, hmax⟩ := size_of_write h
  simp only [bodySize, ← length_optionalText, Layout.Event.payload] at hsize
  rw [write] at h
  have hm := laysOut_of_compose h
  obtain ⟨-, -, -, -, detailStart, detailSize, ⟨-, -, -, -, hstart, hdetail⟩, -, -, hfits⟩ :=
    (verifyEvent_eq_ok (ht.size.trans hmax)).mp hverify
  have hdetailStart := ht.number (by decide) hstart hm.detailStart
  have hdetailSize := ht.number (by decide) hdetail hm.detailSize
  omega

theorem size_le_of_csumRequest {operation uid : UInt32} {keyId path : Bytes}
    (h : (csumRequest token operation uid keyId path).write = .ok m) (ht : Front t m)
    (hverify : t.verifyCsumRequest = .ok ()) : m.size ≤ t.size := by
  obtain ⟨hsize, hmax⟩ := size_of_write h
  simp only [bodySize, ← length_terminated, Layout.CsumRequest.payload] at hsize
  rw [write, Message.csumRequest] at h
  have hsizes := (holds_of_compose h).afterToken.afterU32.afterU32
  obtain ⟨keyIdSize, pathSize, hkeyId, hpath, hfits, -⟩ :=
    (verifyCsumRequest_eq_ok (ht.size.trans hmax)).mp hverify
  have hkeyIdSize := ht.number (by decide) hkeyId (hsizes.left.sizeField (by omega))
  have hpathSize := ht.number (by decide) hpath (hsizes.afterSize.left.sizeField (by omega))
  omega

theorem size_le_of_csumMultiRequest {operation uid : UInt32} {keyId : Bytes}
    {records : List RequestRecord}
    (h : (csumMultiRequest token operation uid keyId records).write = .ok m) (ht : Front t m)
    (hverify : t.verifyCsumMultiRequest = .ok ()) : m.size ≤ t.size := by
  obtain ⟨encoded, hencoded, hcompose⟩ := csumMultiRequest_eq_ok h
  have hmax := size_le_of_compose hcompose
  have hsize := size_of_compose hcompose
  simp only [List.length_append, length_u64Bytes, length_u32Bytes, sizeBytes,
    BigEndian.length_encode, headerSize] at hsize
  have hsizes := (holds_of_compose hcompose).afterToken.afterU32.afterU32
  have hrecords : m.Holds (32 + keyId.length) encoded.flatten := hsizes.afterSize.afterSize.right
  have hcount : records.length ≤ maxSize :=
    Nat.le_trans (length_mapM one_le_length_requestRecord hencoded) (hrecords.length_le hmax)
  obtain ⟨keyIdSize, count, hkeyId, hcountAt, hfits, hchecked⟩ :=
    (verifyCsumMultiRequest_eq_ok (ht.size.trans hmax)).mp hverify
  rw [ht.number (by decide) hkeyId (hsizes.left.sizeField (by omega))] at hfits hchecked
  rw [ht.number (by decide) hcountAt (hsizes.afterSize.left.sizeField hcount)] at hchecked
  have hlast := Front.fits_of_records (t.verifyRequestRecords · · · = .ok ())
    (ht.requestRecord hmax) hencoded hrecords hfits hchecked
  omega

theorem size_le_of_csumMultiReply {operation : UInt32} {error : Int32} {records : List ReplyRecord}
    (h : (csumMultiReply token operation error records).write = .ok m) (ht : Front t m)
    (hverify : t.verifyCsumMultiReply = .ok ()) : m.size ≤ t.size := by
  obtain ⟨encoded, hencoded, hcompose⟩ := csumMultiReply_eq_ok h
  have hmax := size_le_of_compose hcompose
  have hsize := size_of_compose hcompose
  simp only [List.length_append, length_u64Bytes, length_u32Bytes, length_i32Bytes, sizeBytes,
    BigEndian.length_encode, headerSize] at hsize
  have hsizes := (holds_of_compose hcompose).afterToken.afterU32.afterI32
  have hrecords : m.Holds (28 + 0) encoded.flatten := hsizes.afterSize
  have hcount : records.length ≤ maxSize :=
    Nat.le_trans (length_mapM one_le_length_replyRecord hencoded) (hrecords.length_le hmax)
  obtain ⟨count, hcountAt, hchecked⟩ := verifyCsumMultiReply_eq_ok.mp hverify
  have hfits := hcountAt.fits
  rw [length_u32Bytes] at hfits
  rw [ht.number (by decide) hcountAt (hsizes.left.sizeField hcount)] at hchecked
  have hlast := Front.fits_of_records (t.verifyReplyRecords · · · = .ok ())
    (ht.replyRecord hmax) hencoded hrecords hfits hchecked
  omega

end Kinds

theorem size_le_of_front (h : d.write = .ok m)
    (hother : ∀ token flags strings, d ≠ .stringList token flags strings) (ht : Front t m)
    (hverify : t.verify = .ok ()) : m.size ≤ t.size := by
  have hlayout := ht.verifyLayout (opcode?_of_write h) hverify
  have hsize := (size_of_write h).1
  have hexact {op : Opcode} (hfixed : t.requireExact op d.bodySize = .ok ()) : m.size ≤ t.size := by
    rw [hsize, requireExact_eq_ok.mp hfixed]
  cases d with
  | authChallenge token authType challenge keyId => exact size_le_of_authChallenge h ht hlayout
  | register r =>
    have hwrite : registration .register r.token r.filter r.label = .ok m := h
    exact size_le_of_registration hwrite ht hlayout
  | unregister token filter =>
    have hwrite : registration .unregister token filter none = .ok m := h
    exact size_le_of_registration hwrite ht hlayout
  | event e =>
    cases hkind : e.needsVerdict <;> simp only [content, Content.opcode, hkind] at hlayout <;>
      exact size_le_of_event h ht hlayout
  | answer token verdict delegate =>
    obtain ⟨⟨⟩, hfixed, -⟩ := bind_eq_ok.mp hlayout
    exact hexact hfixed
  | outcome token you uid verdict =>
    cases you <;>
    · obtain ⟨⟨⟩, hfixed, -⟩ := bind_eq_ok.mp hlayout
      exact hexact hfixed
  | csumRequest token operation uid keyId path => exact size_le_of_csumRequest h ht hlayout
  | stringList token flags strings => exact absurd rfl (hother token flags strings)
  | csumMultiRequest token operation uid keyId records =>
    exact size_le_of_csumMultiRequest h ht hlayout
  | csumMultiReply token operation error records => exact size_le_of_csumMultiReply h ht hlayout
  | _ => exact hexact hlayout

theorem cut_of_write (h : d.write = .ok m) {n : Nat} (hmin : headerSize ≤ n)
    (hcut : n < m.bodySize) : ∃ cut, m.resize n = .ok cut ∧ Cut n m cut.sealed := by
  refine cut_of_resize hmin ?_ (size_of_write h).2
  rw [Message.bodySize] at hcut
  omega

/-- Wherever a written message is cut, with its length and its trailer put right it is of no form,
but a list of strings is one where its payload is empty or a string ends. -/
theorem truncation (h : d.write = .ok m) {n : Nat} (hmin : 8 ≤ n) (hcut : n < m.bodySize) :
    ∃ cut, m.resize n = .ok cut ∧ cut.sealed.size = n + trailerSize ∧ cut.sealed.Sealed ∧
      (∃ declared, cut.sealed.declaredSize? = some declared ∧
        declared.toNat = cut.sealed.size) ∧
      match d with
      | .stringList _ _ strings => ∃ payload, m.tail? 20 = some payload ∧
          payload = strings.flatMap terminated ∧
          (cut.sealed.verify = .ok () ↔ n = 20 ∨ 20 < n ∧ payload[n - 21]? = some 0)
      | _ => ∃ fault, cut.sealed.verify = .error fault := by
  obtain ⟨hsize, hmax⟩ := size_of_write h
  obtain ⟨cut, hresize, hc⟩ := cut_of_write h hmin hcut
  refine ⟨cut, hresize, hc.size, hc.sealed, hc.declared.size? (hc.front.size.trans hmax), ?_⟩
  have hrejected (hother : ∀ token flags strings, d ≠ .stringList token flags strings) :
      ∃ fault, cut.sealed.verify = .error fault := by
    cases hverify : cut.sealed.verify with
    | error fault => exact ⟨fault, rfl⟩
    | ok =>
      have hwhole := size_le_of_front h hother hc.front hverify
      rw [Message.bodySize] at hcut
      rw [hc.size] at hwhole
      omega
  cases d with
  | stringList token flags strings =>
    have hcompose := (stringList_eq_ok h).2
    have hpayload : m.Holds 20 (strings.flatMap terminated) :=
      (holds_of_compose hcompose).afterToken.afterU32
    have hend : m.size = 20 + (strings.flatMap terminated).length + trailerSize := by
      rw [hsize, length_flatMap_terminated]
      rfl
    have htail : m.tail? 20 = some (strings.flatMap terminated) := by
      have hbody : m.bodySize = 20 + (strings.flatMap terminated).length := by
        rw [Message.bodySize, hend, Nat.add_sub_cancel]
      rw [tail?, if_pos (by omega), hbody, Nat.add_sub_cancel_left, hpayload.slice_eq]
    exact ⟨_, htail, rfl, (hc.verify_iff hmin hmax (opcode?_of_write h)).trans
      (hc.verifyStringList_iff hpayload hend)⟩
  | _ => exact hrejected (by simp)

/-- A path that loses its terminator, and two strings cut behind the first of them. -/
theorem truncation_path_and_strings :
    (∃ m, (csumRequest 7 1 1000 [] [97]).write = .ok m ∧ 33 < m.bodySize ∧
      ∃ cut fault, m.resize 33 = .ok cut ∧ cut.sealed.verify = .error fault) ∧
    ∃ m, (stringList 7 0 [[97], [98]]).write = .ok m ∧ 22 < m.bodySize ∧
      ∃ cut, m.resize 22 = .ok cut ∧ cut.sealed.Sealed ∧ cut.sealed.verify = .ok () := by
  constructor
  · obtain ⟨m, hm, -⟩ := exists_write (d := .csumRequest 7 1 1000 [] [97]) trivial (by decide)
    have hlong : 33 < m.bodySize := by
      rw [Message.bodySize, (size_of_write hm).1]
      decide
    obtain ⟨cut, hcut, -, -, -, fault, hfault⟩ := truncation hm (by decide) hlong
    exact ⟨m, hm, hlong, cut, fault, hcut, hfault⟩
  · obtain ⟨m, hm, -⟩ := exists_write (d := .stringList 7 0 [[97], [98]])
      (show ∀ s ∈ ([[97], [98]] : List Bytes), 0 ∉ s by decide) (by decide)
    have hlong : 22 < m.bodySize := by
      rw [Message.bodySize, (size_of_write hm).1]
      decide
    obtain ⟨cut, hcut, -, hsealed, -, _, -, rfl, hverify⟩ := truncation hm (by decide) hlong
    exact ⟨m, hm, hlong, cut, hcut, hsealed, hverify.mpr (by decide)⟩

end Draft

end Arbiter
