import Arbiter.Proofs.Message.Records
import Arbiter.Proofs.Message.Verification

/-!
Verification proves what the reader needs. Every read of a kind lies where the checks of that kind
have looked, so what passes verification is read to its end, and a message that is not read was
refused by verification, with the same fault.
-/

namespace Arbiter.Message

variable {m : Message} {op : Opcode} {offset stop : Nat}

theorem exists_readU32 (hbody : stop + trailerSize ≤ m.size) (h : offset + 4 ≤ stop) :
    ∃ n, m.readU32 ⟨offset, 4⟩ = .ok n := by
  obtain ⟨n, hn⟩ : ∃ n, m.Holds offset (u32Bytes n) := exists_u32 (by omega)
  exact ⟨n, hn.readU32⟩

theorem exists_readI32 (hbody : stop + trailerSize ≤ m.size) (h : offset + 4 ≤ stop) :
    ∃ n, m.readI32 ⟨offset, 4⟩ = .ok n := by
  obtain ⟨n, hn⟩ : ∃ n, m.Holds offset (u32Bytes n) := exists_u32 (by omega)
  have hcode : m.Holds offset (i32Bytes n.toInt32) := hn
  exact ⟨n.toInt32, hcode.readI32⟩

theorem exists_readToken (hbody : stop + trailerSize ≤ m.size) (h : 16 ≤ stop) :
    ∃ n, m.readToken = .ok n := by
  obtain ⟨n, hn⟩ : ∃ n, m.Holds 8 (u64Bytes n) := exists_u64 (by omega)
  exact ⟨n, hn.readToken⟩

theorem Holds.readSize {n : UInt32} (h : m.Holds offset (u32Bytes n)) :
    m.readSize ⟨offset, 4⟩ = .ok n.toNat := by
  rw [Message.readSize, h.readU32]
  rfl

theorem readSize_eq_ok {n : Nat} : m.readSize ⟨offset, 4⟩ = .ok n ↔
    ∃ size : UInt32, m.Holds offset (u32Bytes size) ∧ size.toNat = n := by
  simp only [readSize, readU32, map_eq_ok, expect_eq_ok, u32?_eq_some]

theorem exists_readVerdict {code : Int32} (h : m.Holds offset (i32Bytes code)) (hcode : 0 ≤ code) :
    ∃ verdict, m.readVerdict op ⟨offset, 4⟩ = .ok verdict := by
  have hverdict : Verdict.ofCode? code = some ⟨code, hcode⟩ := Verdict.ofCode?_eq_some.mpr rfl
  exact ⟨⟨code, hcode⟩, by rw [readVerdict, h.readI32, ok_bind, hverdict, expect_some]⟩

section Regions

variable {base start count : Nat} {region : String}

theorem readRegion_of_fits (hbase : 0 < base) (hmax : m.size ≤ maxSize)
    (h : base + start + count + trailerSize ≤ m.size) :
    m.readRegion op base start count region = .ok (m.slice (base + start) count) := by
  rw [readRegion, region?, if_pos ((hasRegion_iff hbase hmax).mpr h), expect_some]

theorem readSpan_of_fits (hmax : m.size ≤ maxSize) {f g : Nat} {start size : UInt32}
    (hstart : m.Holds f (u32Bytes start)) (hsize : m.Holds g (u32Bytes size))
    (h : 60 + start.toNat + size.toNat + trailerSize ≤ m.size) :
    m.readSpan op ⟨f, 4⟩ ⟨g, 4⟩ region = .ok (m.slice (60 + start.toNat) size.toNat) := by
  rw [readSpan, hstart.readSize, ok_bind, hsize.readSize, ok_bind]
  exact readRegion_of_fits (by decide) hmax h

end Regions

theorem exists_readHello (h : m.size = Layout.Hello.bodyEnd + trailerSize) :
    ∃ content, m.readHello = .ok content := by
  obtain ⟨version, hversion⟩ : ∃ n, m.readU32 Layout.Hello.version = .ok n :=
    exists_readU32 h.ge (by decide)
  obtain ⟨minVersion, hminVersion⟩ : ∃ n, m.readU32 Layout.Hello.minVersion = .ok n :=
    exists_readU32 h.ge (by decide)
  rw [readHello, hversion, ok_bind, hminVersion, ok_bind]
  exact ⟨_, rfl⟩

theorem exists_readVersel (h : m.size = Layout.Versel.bodyEnd + trailerSize) :
    ∃ content, m.readVersel = .ok content := by
  obtain ⟨token, htoken⟩ := exists_readToken h.ge (by decide)
  obtain ⟨version, hversion⟩ : ∃ n, m.readU32 Layout.Versel.version = .ok n :=
    exists_readU32 h.ge (by decide)
  rw [readVersel, htoken, ok_bind, hversion, ok_bind]
  exact ⟨_, rfl⟩

theorem exists_readAuth (h : m.size = Layout.Auth.bodyEnd + trailerSize) :
    ∃ content, m.readAuth = .ok content := by
  obtain ⟨token, htoken⟩ := exists_readToken h.ge (by decide)
  obtain ⟨authType, hauthType⟩ : ∃ n, m.readU32 Layout.Auth.authType = .ok n :=
    exists_readU32 h.ge (by decide)
  rw [readAuth, htoken, ok_bind, hauthType, ok_bind]
  exact ⟨_, rfl⟩

theorem exists_readReply (h : m.size = Layout.Reply.bodyEnd + trailerSize) :
    ∃ content, m.readReply = .ok content := by
  obtain ⟨token, htoken⟩ := exists_readToken h.ge (by decide)
  obtain ⟨opcode, hopcode⟩ : ∃ n, m.readU32 Layout.Reply.opcode = .ok n :=
    exists_readU32 h.ge (by decide)
  obtain ⟨error, herror⟩ : ∃ n, m.readI32 Layout.Reply.error = .ok n :=
    exists_readI32 h.ge (by decide)
  rw [readReply, htoken, ok_bind, hopcode, ok_bind, herror, ok_bind]
  exact ⟨_, rfl⟩

theorem exists_readStatus (h : m.size = Layout.Status.bodyEnd + trailerSize) :
    ∃ content, m.readStatus = .ok content := by
  obtain ⟨token, htoken⟩ := exists_readToken h.ge (by decide)
  obtain ⟨key, hkey⟩ : ∃ n, m.readU32 Layout.Status.key = .ok n :=
    exists_readU32 h.ge (by decide)
  obtain ⟨value, hvalue⟩ : ∃ n, m.readU32 Layout.Status.value = .ok n :=
    exists_readU32 h.ge (by decide)
  rw [readStatus, htoken, ok_bind, hkey, ok_bind, hvalue, ok_bind]
  exact ⟨_, rfl⟩

section Verdicts

variable {code : Int32}

theorem exists_readAnswer (h : m.size = Layout.Answer.bodyEnd + trailerSize)
    (hverdict : m.Holds 16 (i32Bytes code)) (hcode : 0 ≤ code) :
    ∃ content, m.readAnswer = .ok content := by
  obtain ⟨token, htoken⟩ := exists_readToken h.ge (by decide)
  obtain ⟨verdict, hread⟩ : ∃ v, m.readVerdict .answer Layout.Answer.verdict = .ok v :=
    exists_readVerdict hverdict hcode
  obtain ⟨delegate, hdelegate⟩ : ∃ n, m.readU32 Layout.Answer.delegate = .ok n :=
    exists_readU32 h.ge (by decide)
  rw [readAnswer, htoken, ok_bind, hread, ok_bind, hdelegate, ok_bind]
  exact ⟨_, rfl⟩

theorem exists_readOutcome (h : m.size = Layout.Outcome.bodyEnd + trailerSize)
    (hverdict : m.Holds 20 (i32Bytes code)) (hcode : 0 ≤ code) :
    ∃ content, m.readOutcome op = .ok content := by
  obtain ⟨token, htoken⟩ := exists_readToken h.ge (by decide)
  obtain ⟨uid, huid⟩ : ∃ n, m.readU32 Layout.Outcome.uid = .ok n :=
    exists_readU32 h.ge (by decide)
  obtain ⟨verdict, hread⟩ : ∃ v, m.readVerdict op Layout.Outcome.verdict = .ok v :=
    exists_readVerdict hverdict hcode
  rw [readOutcome, htoken, ok_bind, huid, ok_bind, hread, ok_bind]
  exact ⟨_, rfl⟩

end Verdicts

section Kinds

theorem exists_readAuthChallenge (hmax : m.size ≤ maxSize) (h : m.verifyAuthChallenge = .ok ()) :
    ∃ content, m.readAuthChallenge = .ok content := by
  obtain ⟨challenge, keyId, hchallenge, hkeyId, hfits⟩ := (verifyAuthChallenge_eq_ok hmax).mp h
  have hbody : 28 + trailerSize ≤ m.size := hkeyId.fits
  have hchallengeSize : m.readSize Layout.AuthChallenge.challengeSize = .ok challenge.toNat :=
    hchallenge.readSize
  have hkeyIdSize : m.readSize Layout.AuthChallenge.keyIdSize = .ok keyId.toNat := hkeyId.readSize
  obtain ⟨token, htoken⟩ := exists_readToken hbody (by decide)
  obtain ⟨authType, hauthType⟩ : ∃ n, m.readU32 Layout.AuthChallenge.authType = .ok n :=
    exists_readU32 hbody (by decide)
  simp only [readAuthChallenge, hchallengeSize, hkeyIdSize, htoken, hauthType, ok_bind,
    Layout.AuthChallenge.payload]
  rw [readRegion_of_fits (by decide) hmax (by omega), ok_bind,
    readRegion_of_fits (by decide) hmax (by omega), ok_bind]
  exact ⟨_, rfl⟩

theorem exists_readRegistration (hmax : m.size ≤ maxSize) (h : m.verifyRegistration op = .ok ()) :
    ∃ r, m.readRegistration op = .ok r := by
  obtain ⟨label, hlabel, htext⟩ := (verifyRegistration_eq_ok hmax).mp h
  have hbody : 32 + trailerSize ≤ m.size := hlabel.fits
  have hlabelSize : m.readSize Layout.Registration.labelSize = .ok label.toNat := hlabel.readSize
  obtain ⟨token, htoken⟩ := exists_readToken hbody (by decide)
  obtain ⟨uid, huid⟩ : ∃ n, m.readU32 Layout.Registration.uid = .ok n :=
    exists_readU32 hbody (by decide)
  obtain ⟨ruleId, hruleId⟩ : ∃ n, m.readU32 Layout.Registration.ruleId = .ok n :=
    exists_readU32 hbody (by decide)
  obtain ⟨subsystem, hsubsystem⟩ : ∃ n, m.readU32 Layout.Registration.subsystem = .ok n :=
    exists_readU32 hbody (by decide)
  simp only [readRegistration, hlabelSize, htoken, huid, hruleId, hsubsystem, ok_bind,
    Layout.Registration.payload]
  -- Without a label there is no region to read.
  split
  · exact ⟨_, rfl⟩
  · obtain ⟨hfits, -⟩ := htext.resolve_left ‹_›
    rw [readRegion_of_fits (by decide) hmax hfits]
    exact ⟨_, rfl⟩

theorem exists_readEvent (hmax : m.size ≤ maxSize) (h : m.verifyEvent op = .ok ()) :
    ∃ e, m.readEvent op = .ok e := by
  obtain ⟨checksumStart, checksumSize, pathStart, pathSize, detailStart, detailSize,
    ⟨hchecksumStart, hchecksumSize, hpathStart, hpathSize, hdetailStart, hdetailSize⟩,
    hchecksum, hpath, hdetail⟩ := (verifyEvent_eq_ok hmax).mp h
  have hbody : 60 + trailerSize ≤ m.size := hdetailSize.fits
  have hpathField : m.readSize Layout.Event.pathSize = .ok pathSize.toNat := hpathSize.readSize
  obtain ⟨token, htoken⟩ := exists_readToken hbody (by decide)
  obtain ⟨pid, hpid⟩ : ∃ n, m.readU32 Layout.Event.pid = .ok n :=
    exists_readU32 hbody (by decide)
  obtain ⟨uid, huid⟩ : ∃ n, m.readU32 Layout.Event.uid = .ok n :=
    exists_readU32 hbody (by decide)
  obtain ⟨ruleId, hruleId⟩ : ∃ n, m.readU32 Layout.Event.ruleId = .ok n :=
    exists_readU32 hbody (by decide)
  obtain ⟨subsystem, hsubsystem⟩ : ∃ n, m.readU32 Layout.Event.subsystem = .ok n :=
    exists_readU32 hbody (by decide)
  obtain ⟨priority, hpriority⟩ : ∃ n, m.readU32 Layout.Event.priority = .ok n :=
    exists_readU32 hbody (by decide)
  have hreadChecksum : m.readSpan op Layout.Event.checksumStart Layout.Event.checksumSize
      "checksum" = .ok (m.slice (60 + checksumStart.toNat) checksumSize.toNat) :=
    readSpan_of_fits hmax hchecksumStart hchecksumSize hchecksum
  have hreadDetail : m.readSpan op Layout.Event.detailStart Layout.Event.detailSize "event" =
      .ok (m.slice (60 + detailStart.toNat) detailSize.toNat) :=
    readSpan_of_fits hmax hdetailStart hdetailSize hdetail
  simp only [readEvent, hpathField, htoken, hpid, huid, hruleId, hsubsystem, hpriority,
    hreadChecksum, hreadDetail, ok_bind]
  split
  · exact ⟨_, rfl⟩
  · obtain ⟨hfits, -⟩ := hpath.resolve_left ‹_›
    have hreadPath : m.readSpan op Layout.Event.pathStart Layout.Event.pathSize "path" =
        .ok (m.slice (60 + pathStart.toNat) pathSize.toNat) :=
      readSpan_of_fits hmax hpathStart hpathSize hfits
    rw [hreadPath]
    exact ⟨_, rfl⟩

theorem exists_readCsumRequest (hmax : m.size ≤ maxSize) (h : m.verifyCsumRequest = .ok ()) :
    ∃ content, m.readCsumRequest = .ok content := by
  obtain ⟨keyId, path, hkeyId, hpath, hfits, -⟩ := (verifyCsumRequest_eq_ok hmax).mp h
  have hbody : 32 + trailerSize ≤ m.size := hpath.fits
  have hkeyIdSize : m.readSize Layout.CsumRequest.keyIdSize = .ok keyId.toNat := hkeyId.readSize
  have hpathSize : m.readSize Layout.CsumRequest.pathSize = .ok path.toNat := hpath.readSize
  obtain ⟨token, htoken⟩ := exists_readToken hbody (by decide)
  obtain ⟨operation, hoperation⟩ : ∃ n, m.readU32 Layout.CsumRequest.operation = .ok n :=
    exists_readU32 hbody (by decide)
  obtain ⟨uid, huid⟩ : ∃ n, m.readU32 Layout.CsumRequest.uid = .ok n :=
    exists_readU32 hbody (by decide)
  simp only [readCsumRequest, hkeyIdSize, hpathSize, htoken, hoperation, huid, ok_bind,
    Layout.CsumRequest.payload]
  rw [readRegion_of_fits (by decide) hmax hfits, ok_bind,
    readRegion_of_fits (by decide) hmax (by omega), ok_bind]
  exact ⟨_, rfl⟩

theorem exists_readStringList (h : m.verifyStringList = .ok ()) :
    ∃ content, m.readStringList = .ok content := by
  obtain ⟨hsize, -⟩ := verifyStringList_eq_ok.mp h
  have hbody : 20 + trailerSize ≤ m.size := hsize
  have htail : m.tail? Layout.StringList.payload =
      some (m.slice Layout.StringList.payload (m.bodySize - Layout.StringList.payload)) :=
    if_pos (Nat.le_sub_of_add_le hbody)
  obtain ⟨token, htoken⟩ := exists_readToken hbody (by decide)
  obtain ⟨flags, hflags⟩ : ∃ n, m.readU32 Layout.StringList.flags = .ok n :=
    exists_readU32 hbody (by decide)
  simp only [readStringList, htail, expect_some, htoken, hflags, ok_bind]
  exact ⟨_, rfl⟩

theorem readRequestRecords_succ (hmax : m.size ≤ maxSize) {cursor : Nat}
    {size number checksum path : UInt32} (hsize : m.Holds (32 + cursor + 0) (u32Bytes size))
    (hnumber : m.Holds (32 + cursor + 4) (u32Bytes number))
    (hchecksum : m.Holds (32 + cursor + 8) (u32Bytes checksum))
    (hpath : m.Holds (32 + cursor + 12) (u32Bytes path))
    (htotal : 16 + checksum.toNat + path.toNat = size.toNat)
    (hfits : 32 + cursor + size.toNat + trailerSize ≤ m.size) (count index : Nat) :
    m.readRequestRecords (count + 1) index cursor =
      (m.readRequestRecords count (index + 1) (cursor + size.toNat)).map
        (⟨number, m.slice (32 + cursor + 16) checksum.toNat,
          untilZero (m.slice (32 + cursor + 16 + checksum.toNat) path.toNat)⟩ :: ·) := by
  -- The cursor moves by the declared size of a record, and the checks make that the size its
  -- regions add up to.
  have hreadChecksum : m.readRegion .csumMultiRequest 32 (cursor + 16) checksum.toNat
      "record checksum" = .ok (m.slice (32 + cursor + 16) checksum.toNat) :=
    readRegion_of_fits (by decide) hmax (by omega)
  have hreadPath : m.readRegion .csumMultiRequest 32 (cursor + 16 + checksum.toNat) path.toNat
      "record path" = .ok (m.slice (32 + cursor + 16 + checksum.toNat) path.toNat) := by
    rw [readRegion_of_fits (by decide) hmax (by omega), ← Nat.add_assoc, ← Nat.add_assoc]
  simp only [readRequestRecords, Layout.CsumMultiRequest.payload, Layout.RequestRecord.payload,
    Layout.RequestRecord.size, Layout.RequestRecord.checksumSize, Layout.RequestRecord.pathSize,
    Layout.RequestRecord.index, u32At?_eq_some.mpr hsize, u32At?_eq_some.mpr hchecksum,
    u32At?_eq_some.mpr hpath, u32At?_eq_some.mpr hnumber, hreadChecksum, hreadPath, expect_some,
    ok_bind]
  exact (map_eq_pure_bind ..).symm

theorem exists_readRequestRecords (hmax : m.size ≤ maxSize) {count : Nat} {index cursor : Nat}
    (h : m.verifyRequestRecords count index cursor = .ok ()) :
    ∃ records, m.readRequestRecords count index cursor = .ok records := by
  induction count generalizing index cursor with
  | zero => exact ⟨[], rfl⟩
  | succ count ih =>
    obtain ⟨size, checksum, path, hsize, hchecksum, hpath, htotal, hfits, -, hrest⟩ :=
      (verifyRequestRecords_succ_eq_ok hmax).mp h
    obtain ⟨number, hnumber⟩ : ∃ n, m.Holds (32 + cursor + 4) (u32Bytes n) := exists_u32 (by omega)
    obtain ⟨records, hrecords⟩ := ih hrest
    rw [readRequestRecords_succ hmax hsize hnumber hchecksum hpath htotal hfits, hrecords]
    exact ⟨_, rfl⟩

theorem exists_readCsumMultiRequest (hmax : m.size ≤ maxSize)
    (h : m.verifyCsumMultiRequest = .ok ()) : ∃ content, m.readCsumMultiRequest = .ok content := by
  obtain ⟨keyId, count, hkeyId, hcount, hfits, hverify⟩ := (verifyCsumMultiRequest_eq_ok hmax).mp h
  have hbody : 32 + trailerSize ≤ m.size := hcount.fits
  have hkeyIdSize : m.readSize Layout.CsumMultiRequest.keyIdSize = .ok keyId.toNat :=
    hkeyId.readSize
  have hcountField : m.readSize Layout.CsumMultiRequest.count = .ok count.toNat := hcount.readSize
  obtain ⟨records, hrecords⟩ := exists_readRequestRecords hmax hverify
  obtain ⟨token, htoken⟩ := exists_readToken hbody (by decide)
  obtain ⟨operation, hoperation⟩ : ∃ n, m.readU32 Layout.CsumMultiRequest.operation = .ok n :=
    exists_readU32 hbody (by decide)
  obtain ⟨uid, huid⟩ : ∃ n, m.readU32 Layout.CsumMultiRequest.uid = .ok n :=
    exists_readU32 hbody (by decide)
  simp only [readCsumMultiRequest, hkeyIdSize, hcountField, hrecords, htoken, hoperation, huid,
    ok_bind, Layout.CsumMultiRequest.payload]
  rw [readRegion_of_fits (by decide) hmax hfits, ok_bind]
  exact ⟨_, rfl⟩

theorem readReplyRecords_succ (hmax : m.size ≤ maxSize) {cursor : Nat}
    {size number error checksum : UInt32} (hsize : m.Holds (28 + cursor + 0) (u32Bytes size))
    (hnumber : m.Holds (28 + cursor + 4) (u32Bytes number))
    (herror : m.Holds (28 + cursor + 8) (u32Bytes error))
    (hchecksum : m.Holds (28 + cursor + 12) (u32Bytes checksum))
    (htotal : 16 + checksum.toNat = size.toNat)
    (hfits : 28 + cursor + size.toNat + trailerSize ≤ m.size) (count index : Nat) :
    m.readReplyRecords (count + 1) index cursor =
      (m.readReplyRecords count (index + 1) (cursor + size.toNat)).map
        (⟨number, error.toInt32, m.slice (28 + cursor + 16) checksum.toNat⟩ :: ·) := by
  have hreadChecksum : m.readRegion .csumMultiReply 28 (cursor + 16) checksum.toNat
      "record checksum" = .ok (m.slice (28 + cursor + 16) checksum.toNat) :=
    readRegion_of_fits (by decide) hmax (by omega)
  simp only [readReplyRecords, Layout.CsumMultiReply.payload, Layout.ReplyRecord.payload,
    Layout.ReplyRecord.size, Layout.ReplyRecord.checksumSize, Layout.ReplyRecord.index,
    Layout.ReplyRecord.error, u32At?_eq_some.mpr hsize, u32At?_eq_some.mpr hchecksum,
    u32At?_eq_some.mpr hnumber, u32At?_eq_some.mpr herror, hreadChecksum, expect_some, ok_bind]
  exact (map_eq_pure_bind ..).symm

theorem exists_readReplyRecords (hmax : m.size ≤ maxSize) {count : Nat} {index cursor : Nat}
    (h : m.verifyReplyRecords count index cursor = .ok ()) :
    ∃ records, m.readReplyRecords count index cursor = .ok records := by
  induction count generalizing index cursor with
  | zero => exact ⟨[], rfl⟩
  | succ count ih =>
    obtain ⟨size, checksum, hsize, hchecksum, htotal, hfits, hrest⟩ :=
      (verifyReplyRecords_succ_eq_ok hmax).mp h
    obtain ⟨number, hnumber⟩ : ∃ n, m.Holds (28 + cursor + 4) (u32Bytes n) := exists_u32 (by omega)
    obtain ⟨error, herror⟩ : ∃ n, m.Holds (28 + cursor + 8) (u32Bytes n) := exists_u32 (by omega)
    obtain ⟨records, hrecords⟩ := ih hrest
    rw [readReplyRecords_succ hmax hsize hnumber herror hchecksum htotal hfits, hrecords]
    exact ⟨_, rfl⟩

theorem exists_readCsumMultiReply (hmax : m.size ≤ maxSize)
    (h : m.verifyCsumMultiReply = .ok ()) : ∃ content, m.readCsumMultiReply = .ok content := by
  obtain ⟨count, hcount, hverify⟩ := verifyCsumMultiReply_eq_ok.mp h
  have hbody : 28 + trailerSize ≤ m.size := hcount.fits
  have hcountField : m.readSize Layout.CsumMultiReply.count = .ok count.toNat := hcount.readSize
  obtain ⟨records, hrecords⟩ := exists_readReplyRecords hmax hverify
  obtain ⟨token, htoken⟩ := exists_readToken hbody (by decide)
  obtain ⟨operation, hoperation⟩ : ∃ n, m.readU32 Layout.CsumMultiReply.operation = .ok n :=
    exists_readU32 hbody (by decide)
  obtain ⟨error, herror⟩ : ∃ n, m.readI32 Layout.CsumMultiReply.error = .ok n :=
    exists_readI32 hbody (by decide)
  simp only [readCsumMultiReply, hcountField, hrecords, htoken, hoperation, herror, ok_bind]
  exact ⟨_, rfl⟩

end Kinds

theorem exists_readContent (hmax : m.size ≤ maxSize) (h : m.verifyLayout op = .ok ()) :
    ∃ content, m.readContent op = .ok content := by
  cases op with
  | hello => exact exists_readHello (requireExact_eq_ok.mp h)
  | versel => exact exists_readVersel (requireExact_eq_ok.mp h)
  | auth => exact exists_readAuth (requireExact_eq_ok.mp h)
  | authChallenge => exact exists_readAuthChallenge hmax h
  | reply => exact exists_readReply (requireExact_eq_ok.mp h)
  | close =>
    have hsize := requireExact_eq_ok.mp h
    obtain ⟨token, htoken⟩ := exists_readToken hsize.ge (by decide)
    exact ⟨_, map_eq_ok.mpr ⟨token, htoken, rfl⟩⟩
  | register =>
    obtain ⟨r, hr⟩ := exists_readRegistration hmax h
    exact ⟨_, map_eq_ok.mpr ⟨r, hr, rfl⟩⟩
  | unregister =>
    obtain ⟨r, hr⟩ := exists_readRegistration hmax h
    exact ⟨_, map_eq_ok.mpr ⟨r, hr, rfl⟩⟩
  | notify =>
    obtain ⟨e, he⟩ := exists_readEvent hmax h
    exact ⟨_, map_eq_ok.mpr ⟨e, he, rfl⟩⟩
  | ask =>
    obtain ⟨e, he⟩ := exists_readEvent hmax h
    exact ⟨_, map_eq_ok.mpr ⟨e, he, rfl⟩⟩
  | answer =>
    obtain ⟨⟨⟩, hsize, hverdict⟩ := bind_eq_ok.mp h
    obtain ⟨code, hholds, hcode⟩ := requireVerdict_eq_ok.mp hverdict
    exact exists_readAnswer (requireExact_eq_ok.mp hsize) hholds hcode
  | resultYou =>
    obtain ⟨⟨⟩, hsize, hverdict⟩ := bind_eq_ok.mp h
    obtain ⟨code, hholds, hcode⟩ := requireVerdict_eq_ok.mp hverdict
    exact exists_readOutcome (requireExact_eq_ok.mp hsize) hholds hcode
  | resultOther =>
    obtain ⟨⟨⟩, hsize, hverdict⟩ := bind_eq_ok.mp h
    obtain ⟨code, hholds, hcode⟩ := requireVerdict_eq_ok.mp hverdict
    exact exists_readOutcome (requireExact_eq_ok.mp hsize) hholds hcode
  | status => exact exists_readStatus (requireExact_eq_ok.mp h)
  | csumRequest => exact exists_readCsumRequest hmax h
  | stringList => exact exists_readStringList h
  | csumMultiRequest => exact exists_readCsumMultiRequest hmax h
  | csumMultiReply => exact exists_readCsumMultiReply hmax h
  | retired kind => exact ⟨.retired kind, rfl⟩

theorem readContent_eq_retired {kind : Retired} :
    m.readContent op = .ok (.retired kind) ↔ op = .retired kind := by
  cases op with
  | retired kind' => simp [readContent]
  | _ =>
    simp [readContent, readHello, readVersel, readAuth, readAuthChallenge, readReply, readAnswer,
      readOutcome, readStatus, readCsumRequest, readStringList, readCsumMultiRequest,
      readCsumMultiReply, bind_eq_ok, map_eq_ok, pure, Except.pure]

theorem decode_eq_ok {content : Content} :
    m.decode = .ok content ↔ m.verify = .ok () ∧
      ∃ op : Opcode, m.opcode? = some op.code ∧ m.readContent op = .ok content := by
  simp only [decode, bind_eq_ok, expect_eq_ok, Opcode.ofCode?_eq_some]
  constructor
  · rintro ⟨⟨⟩, hverify, -, hcode, op, rfl, hread⟩
    exact ⟨hverify, op, hcode, hread⟩
  · rintro ⟨hverify, op, hcode, hread⟩
    exact ⟨(), hverify, op.code, hcode, op, rfl, hread⟩

theorem exists_content (h : m.verify = .ok ()) :
    ∃ (op : Opcode) (content : Content), m.opcode? = some op.code ∧
      m.readContent op = .ok content := by
  obtain ⟨-, hmax, -, op, hcode, hlayout⟩ := verify_eq_ok.mp h
  obtain ⟨content, hread⟩ := exists_readContent hmax hlayout
  exact ⟨op, content, opcode?_eq_some.mpr hcode, hread⟩

theorem decode_of_refused {fault : Fault} (h : m.verify = .error fault) :
    m.decode = .error fault := by
  rw [decode, h]
  rfl

/-- A message is read exactly when it passes verification, and is refused with the fault that
verification finds; nothing that is read after verification fails, and a retired kind is read from
its own code only. -/
theorem decode_conforms (m : Message) :
    ((∃ content, m.decode = .ok content) ↔ m.verify = .ok ()) ∧
      (∀ fault, m.decode = .error fault ↔ m.verify = .error fault) ∧
      (∀ op : Opcode, m.verify = .ok () → m.opcode? = some op.code →
        ∃ content, m.readContent op = .ok content) ∧
      ∀ kind, m.decode = .ok (.retired kind) ↔
        m.verify = .ok () ∧ m.opcode? = some (Opcode.retired kind).code := by
  refine ⟨⟨?_, ?_⟩, fun fault => ⟨?_, decode_of_refused⟩, ?_, fun kind => ?_⟩
  · rintro ⟨content, hdecode⟩
    exact (decode_eq_ok.mp hdecode).1
  · intro hverify
    obtain ⟨op, content, hcode, hread⟩ := exists_content hverify
    exact ⟨content, decode_eq_ok.mpr ⟨hverify, op, hcode, hread⟩⟩
  · intro hdecode
    cases hverify : m.verify with
    | error fault' =>
      have hfault := (decode_of_refused hverify).symm.trans hdecode
      rw [Except.error.inj hfault]
    | ok =>
      obtain ⟨op, content, hcode, hread⟩ := exists_content hverify
      cases (decode_eq_ok.mpr ⟨hverify, op, hcode, hread⟩).symm.trans hdecode
  · intro op hverify hcode
    obtain ⟨op', content, hcode', hread⟩ := exists_content hverify
    have hop : op' = op := Opcode.code_inj.mp (Option.some.inj (hcode'.symm.trans hcode))
    exact ⟨content, hop ▸ hread⟩
  · simp only [decode_eq_ok, readContent_eq_retired, exists_eq_right]

end Arbiter.Message
