import Arbiter.Proofs.Message.Extent
import Arbiter.Proofs.Message.Headers

/-!
Writing what was read. A message may be longer than what it says: bytes may stand behind its last
region or behind the end of a text, and a flag may be any number but zero. What is read from it is
written in one way only, which says the same in no more bytes; the regions of an event may share
their bytes, so it alone may come out longer, and too long.
-/

namespace Arbiter

namespace Content

def draft? : Content → Option Draft
  | hello version minVersion => some (.hello version minVersion)
  | versel token version => some (.versel token version)
  | auth token authType => some (.auth token authType)
  | authChallenge token authType challenge keyId =>
    some (.authChallenge token authType challenge keyId)
  | reply token opcode error => some (.reply token opcode error)
  | close token => some (.close token)
  | register r => some (.register r)
  | unregister ⟨token, filter, none⟩ => some (.unregister token filter)
  | unregister ⟨_, _, some _⟩ => none
  | event e => some (.event e)
  | answer token verdict delegate => some (.answer token verdict delegate)
  | outcome token you uid verdict => some (.outcome token you uid verdict)
  | status token key value => some (.status token key value)
  | csumRequest token operation uid keyId path =>
    some (.csumRequest token operation uid keyId path)
  | stringList token flags strings => some (.stringList token flags strings)
  | csumMultiRequest token operation uid keyId records =>
    some (.csumMultiRequest token operation uid keyId records)
  | csumMultiReply token operation error records =>
    some (.csumMultiReply token operation error records)
  | retired _ => none

theorem draft?_content (d : Draft) : d.content.draft? = some d := by
  cases d <;> rfl

theorem content_of_draft? {c : Content} {d : Draft} (h : c.draft? = some d) : d.content = c := by
  unfold draft? at h
  split at h <;> cases h <;> rfl

theorem draft?_eq_none {c : Content} : c.draft? = none ↔
    (∃ kind, c = .retired kind) ∨ ∃ r, c = .unregister r ∧ r.label ≠ none := by
  unfold draft?
  split <;> simp

end Content

namespace Message

theorem zero_not_mem_untilZero (bytes : Bytes) : 0 ∉ untilZero bytes := by
  intro h
  have hzero := List.mem_takeWhile_imp h
  simp at hzero

theorem length_untilZero_lt {bytes : Bytes} (h : 0 ∈ bytes) :
    (untilZero bytes).length < bytes.length := by
  have hinit : untilZero bytes <+: bytes := List.takeWhile_prefix _
  refine Nat.lt_of_le_of_ne hinit.length_le fun hlength => ?_
  exact zero_not_mem_untilZero bytes ((hinit.eq_of_length hlength).symm ▸ h)

theorem zero_not_mem_splitOn {bytes s : Bytes} (h : s ∈ bytes.splitOn 0) : 0 ∉ s := by
  induction bytes generalizing s with
  | nil => simp_all
  | cons b bytes ih =>
    rw [List.splitOn_cons_eq_if_modifyHead] at h
    split at h
    case isTrue =>
      obtain rfl | h := List.mem_cons.mp h
      · exact List.not_mem_nil
      · exact ih h
    case isFalse hb =>
      obtain ⟨first, rest, heq⟩ := List.exists_cons_of_ne_nil (List.splitOn_ne_nil 0 bytes)
      rw [heq] at h ih
      rw [List.modifyHead_cons] at h
      obtain rfl | h := List.mem_cons.mp h
      · intro hzero
        obtain rfl | hzero := List.mem_cons.mp hzero
        · exact hb rfl
        · exact ih List.mem_cons_self hzero
      · exact ih (List.mem_cons_of_mem _ h)

theorem flatMap_terminated {strings : List Bytes} (h : strings ≠ []) :
    strings.flatMap terminated = [0].intercalate strings ++ [0] := by
  have hne : strings.flatMap terminated ≠ [] := by
    obtain ⟨s, strings, rfl⟩ := List.exists_cons_of_ne_nil h
    simp [terminated]
  have hlast := getLast?_terminated strings
  rw [List.getLast?_eq_some_getLast hne, Option.getD_some] at hlast
  rw [← dropLast_terminated h, ← hlast]
  exact (List.dropLast_concat_getLast hne).symm

theorem flatMap_splitStrings {payload : Bytes} (h : payload.getLast?.getD 0 = 0) :
    (splitStrings payload).flatMap terminated = payload := by
  unfold splitStrings
  split
  case isTrue hempty => rw [List.isEmpty_iff.mp hempty]; rfl
  case isFalse hempty =>
    have hne : payload ≠ [] := fun hnil => hempty (List.isEmpty_iff.mpr hnil)
    rw [List.getLast?_eq_some_getLast hne, Option.getD_some] at h
    rw [flatMap_terminated (List.splitOn_ne_nil 0 _), List.intercalate_splitOn]
    have hlast := List.dropLast_concat_getLast hne
    rwa [h] at hlast

theorem zero_not_mem_splitStrings {payload s : Bytes} (h : s ∈ splitStrings payload) : 0 ∉ s := by
  unfold splitStrings at h
  split at h
  · cases h
  · exact zero_not_mem_splitOn h

section Readers

variable {m : Message} {op : Opcode} {c : Content}

theorem text_of_slice {start count : Nat} (hfits : start + count + trailerSize ≤ m.size)
    (hzero : 0 ∈ m.slice start count) :
    0 ∉ untilZero (m.slice start count) ∧ (untilZero (m.slice start count)).length + 1 ≤ count := by
  have hlength : (m.slice start count).length = count := length_slice (by omega)
  have hlt := length_untilZero_lt hzero
  exact ⟨zero_not_mem_untilZero _, by omega⟩

theorem label_of_read (hmax : m.size ≤ maxSize) (hverify : m.verifyRegistration op = .ok ())
    {r : Registration} (hread : m.readRegistration op = .ok r) :
    (∀ text ∈ r.label.toList, 0 ∉ text) ∧
      Layout.Registration.payload + textSize r.label + trailerSize ≤ m.size := by
  obtain ⟨label, hlabel, htext⟩ := (verifyRegistration_eq_ok hmax).mp hverify
  have hbody : 32 + trailerSize ≤ m.size := hlabel.fits
  have hlabelSize : m.readSize Layout.Registration.labelSize = .ok label.toNat := hlabel.readSize
  rw [readRegistration, hlabelSize, ok_bind] at hread
  split at hread
  · simp only [ok_bind, bind_eq_ok, pure, Except.pure, Except.ok.injEq] at hread
    obtain ⟨-, -, -, -, -, -, -, -, rfl⟩ := hread
    exact ⟨List.forall_mem_nil _, hbody⟩
  · obtain ⟨hfits, hzero⟩ := htext.resolve_left ‹_›
    rw [Layout.Registration.payload, readRegion_of_fits (by decide) hmax hfits] at hread
    simp only [Except.map, ok_bind, bind_eq_ok, pure, Except.pure, Except.ok.injEq] at hread
    obtain ⟨-, -, -, -, -, -, -, -, rfl⟩ := hread
    obtain ⟨htext, hlength⟩ := text_of_slice hfits hzero
    refine ⟨by simpa using htext, ?_⟩
    simp only [textSize, Function.comp_apply, Layout.Registration.payload]
    omega

theorem path_of_read (hmax : m.size ≤ maxSize) (hverify : m.verifyEvent op = .ok ())
    {e : Event} (hread : m.readEvent op = .ok e) : ∀ text ∈ e.path.toList, 0 ∉ text := by
  obtain ⟨-, -, pathStart, pathSize, -, -, ⟨-, -, hpathStart, hpathSize, -, -⟩, -, hpath, -⟩ :=
    (verifyEvent_eq_ok hmax).mp hverify
  have hpathField : m.readSize Layout.Event.pathSize = .ok pathSize.toNat := hpathSize.readSize
  rw [readEvent, hpathField, ok_bind] at hread
  split at hread
  · simp only [ok_bind, bind_eq_ok, pure, Except.pure, Except.ok.injEq] at hread
    obtain ⟨-, -, -, -, -, -, -, -, -, -, -, -, -, -, -, -, rfl⟩ := hread
    exact List.forall_mem_nil _
  · obtain ⟨hfits, hzero⟩ := hpath.resolve_left ‹_›
    have hreadPath : m.readSpan op Layout.Event.pathStart Layout.Event.pathSize "path" =
        .ok (m.slice (60 + pathStart.toNat) pathSize.toNat) :=
      readSpan_of_fits hmax hpathStart hpathSize hfits
    rw [hreadPath] at hread
    simp only [Except.map, ok_bind, bind_eq_ok, pure, Except.pure, Except.ok.injEq] at hread
    obtain ⟨-, -, -, -, -, -, -, -, -, -, -, -, -, -, -, -, rfl⟩ := hread
    simpa using (text_of_slice hfits hzero).1

theorem requestRecords_of_read (hmax : m.size ≤ maxSize) {count index cursor : Nat}
    (hcursor : 32 + cursor + trailerSize ≤ m.size)
    (hverify : m.verifyRequestRecords count index cursor = .ok ()) {records : List RequestRecord}
    (hread : m.readRequestRecords count index cursor = .ok records) :
    (∀ r ∈ records, 0 ∉ r.path ∧ r.size < UInt32.size) ∧
      32 + cursor + (records.map RequestRecord.size).sum + trailerSize ≤ m.size := by
  induction count generalizing index cursor records with
  | zero =>
    cases hread
    exact ⟨List.forall_mem_nil _, hcursor⟩
  | succ count ih =>
    obtain ⟨size, checksum, path, hsize, hchecksum, hpath, htotal, hfits, hzero, hrest⟩ :=
      (verifyRequestRecords_succ_eq_ok hmax).mp hverify
    have hchecksumFits : 32 + (cursor + 16) + checksum.toNat + trailerSize ≤ m.size := by omega
    have hpathFits : 32 + (cursor + 16 + checksum.toNat) + path.toNat + trailerSize ≤ m.size := by
      omega
    simp only [readRequestRecords, Layout.CsumMultiRequest.payload, Layout.RequestRecord.payload,
      Layout.RequestRecord.size, Layout.RequestRecord.checksumSize, Layout.RequestRecord.pathSize,
      u32At?_eq_some.mpr hsize, u32At?_eq_some.mpr hchecksum, u32At?_eq_some.mpr hpath,
      expect_some, ok_bind, readRegion_of_fits (show 0 < 32 by decide) hmax hchecksumFits,
      readRegion_of_fits (show 0 < 32 by decide) hmax hpathFits] at hread
    simp only [bind_eq_ok, pure, Except.pure, Except.ok.injEq] at hread
    obtain ⟨number, -, rest, hreadRest, rfl⟩ := hread
    obtain ⟨hrecords, hlength⟩ := ih (by omega) hrest hreadRest
    have hstart : 32 + cursor + 16 + checksum.toNat = 32 + (cursor + 16 + checksum.toNat) := by
      omega
    rw [hstart] at hzero
    obtain ⟨htext, htextLength⟩ := text_of_slice hpathFits hzero
    have hchecksumLength : (m.slice (32 + (cursor + 16)) checksum.toNat).length = checksum.toNat :=
      length_slice (by omega)
    have hrecord : (⟨number, m.slice (32 + (cursor + 16)) checksum.toNat,
        untilZero (m.slice (32 + (cursor + 16 + checksum.toNat)) path.toNat)⟩ : RequestRecord).size
          ≤ size.toNat := by
      simp only [RequestRecord.size, Layout.RequestRecord.payload]
      omega
    constructor
    · refine List.forall_mem_cons.mpr ⟨⟨htext, ?_⟩, hrecords⟩
      exact Nat.lt_of_le_of_lt hrecord size.toNat_lt
    · rw [List.map_cons, List.sum_cons]
      omega

theorem replyRecords_of_read (hmax : m.size ≤ maxSize) {count index cursor : Nat}
    (hcursor : 28 + cursor + trailerSize ≤ m.size)
    (hverify : m.verifyReplyRecords count index cursor = .ok ()) {records : List ReplyRecord}
    (hread : m.readReplyRecords count index cursor = .ok records) :
    (∀ r ∈ records, r.size < UInt32.size) ∧
      28 + cursor + (records.map ReplyRecord.size).sum + trailerSize ≤ m.size := by
  induction count generalizing index cursor records with
  | zero =>
    cases hread
    exact ⟨List.forall_mem_nil _, hcursor⟩
  | succ count ih =>
    obtain ⟨size, checksum, hsize, hchecksum, htotal, hfits, hrest⟩ :=
      (verifyReplyRecords_succ_eq_ok hmax).mp hverify
    have hchecksumFits : 28 + (cursor + 16) + checksum.toNat + trailerSize ≤ m.size := by omega
    simp only [readReplyRecords, Layout.CsumMultiReply.payload, Layout.ReplyRecord.payload,
      Layout.ReplyRecord.size, Layout.ReplyRecord.checksumSize, u32At?_eq_some.mpr hsize,
      u32At?_eq_some.mpr hchecksum, expect_some, ok_bind,
      readRegion_of_fits (show 0 < 28 by decide) hmax hchecksumFits] at hread
    simp only [bind_eq_ok, pure, Except.pure, Except.ok.injEq] at hread
    obtain ⟨number, -, error, -, rest, hreadRest, rfl⟩ := hread
    obtain ⟨hrecords, hlength⟩ := ih (by omega) hrest hreadRest
    have hchecksumLength : (m.slice (28 + (cursor + 16)) checksum.toNat).length = checksum.toNat :=
      length_slice (by omega)
    have hrecord : (⟨number, error.toInt32, m.slice (28 + (cursor + 16)) checksum.toNat⟩ :
        ReplyRecord).size = size.toNat := by
      simp only [ReplyRecord.size, Layout.ReplyRecord.payload]
      omega
    constructor
    · refine List.forall_mem_cons.mpr ⟨?_, hrecords⟩
      exact hrecord ▸ size.toNat_lt
    · rw [List.map_cons, List.sum_cons]
      omega

/-- A draft whose texts end where they end in a message, and which, unless it is of an event, has
room in the message. -/
structure Compact (m : Message) (d : Draft) : Prop where
  texts : ∀ text ∈ d.content.texts, 0 ∉ text
  encodable : d.Encodable
  fits : (∀ e, d ≠ .event e) → d.bodySize + trailerSize ≤ m.size

variable {d : Draft}

theorem compact_of_exact (hsize : m.size = d.bodySize + trailerSize)
    (htexts : d.content.texts = []) (hencodable : d.Encodable) : m.Compact d where
  texts text htext := by
    rw [htexts] at htext
    cases htext
  encodable := hencodable
  fits _ := hsize.ge

theorem compact_authChallenge (hmax : m.size ≤ maxSize) (hverify : m.verifyAuthChallenge = .ok ())
    (hread : m.readAuthChallenge = .ok c) (hd : c.draft? = some d) : m.Compact d := by
  obtain ⟨challenge, keyId, hchallenge, hkeyId, hfits⟩ :=
    (verifyAuthChallenge_eq_ok hmax).mp hverify
  have hchallengeSize : m.readSize Layout.AuthChallenge.challengeSize = .ok challenge.toNat :=
    hchallenge.readSize
  have hkeyIdSize : m.readSize Layout.AuthChallenge.keyIdSize = .ok keyId.toNat := hkeyId.readSize
  have hchallengeFits : 28 + 0 + challenge.toNat + trailerSize ≤ m.size := by omega
  have hkeyIdFits : 28 + challenge.toNat + keyId.toNat + trailerSize ≤ m.size := by omega
  have hchallengeLength : (m.slice (28 + 0) challenge.toNat).length = challenge.toNat :=
    length_slice (by omega)
  have hkeyIdLength : (m.slice (28 + challenge.toNat) keyId.toNat).length = keyId.toNat :=
    length_slice (by omega)
  simp only [readAuthChallenge, hchallengeSize, hkeyIdSize, ok_bind, Layout.AuthChallenge.payload,
    readRegion_of_fits (show 0 < 28 by decide) hmax hchallengeFits,
    readRegion_of_fits (show 0 < 28 by decide) hmax hkeyIdFits] at hread
  simp only [bind_eq_ok, pure, Except.pure, Except.ok.injEq] at hread
  obtain ⟨token, -, authType, -, rfl⟩ := hread
  cases hd
  refine ⟨List.forall_mem_nil _, trivial, fun _ => ?_⟩
  simp only [Draft.bodySize, hchallengeLength, hkeyIdLength, Layout.AuthChallenge.payload]
  omega

theorem compact_csumRequest (hmax : m.size ≤ maxSize) (hverify : m.verifyCsumRequest = .ok ())
    (hread : m.readCsumRequest = .ok c) (hd : c.draft? = some d) : m.Compact d := by
  obtain ⟨keyId, path, hkeyId, hpath, hfits, hzero⟩ := (verifyCsumRequest_eq_ok hmax).mp hverify
  have hkeyIdSize : m.readSize Layout.CsumRequest.keyIdSize = .ok keyId.toNat := hkeyId.readSize
  have hpathSize : m.readSize Layout.CsumRequest.pathSize = .ok path.toNat := hpath.readSize
  have hkeyIdFits : 32 + 0 + keyId.toNat + trailerSize ≤ m.size := by omega
  have hkeyIdLength : (m.slice (32 + 0) keyId.toNat).length = keyId.toNat :=
    length_slice (by omega)
  simp only [readCsumRequest, hkeyIdSize, hpathSize, ok_bind, Layout.CsumRequest.payload,
    readRegion_of_fits (show 0 < 32 by decide) hmax hfits,
    readRegion_of_fits (show 0 < 32 by decide) hmax hkeyIdFits] at hread
  simp only [bind_eq_ok, pure, Except.pure, Except.ok.injEq] at hread
  obtain ⟨token, -, operation, -, uid, -, rfl⟩ := hread
  cases hd
  obtain ⟨htext, hlength⟩ := text_of_slice hfits hzero
  refine ⟨List.forall_mem_singleton.mpr htext, trivial, fun _ => ?_⟩
  simp only [Draft.bodySize, hkeyIdLength, Layout.CsumRequest.payload]
  omega

theorem compact_stringList (hverify : m.verifyStringList = .ok ())
    (hread : m.readStringList = .ok c) (hd : c.draft? = some d) : m.Compact d := by
  obtain ⟨hsize, hlast⟩ := verifyStringList_eq_ok.mp hverify
  have hbody : Layout.StringList.payload ≤ m.bodySize := by
    simp only [Layout.StringList.payload, bodySize, trailerSize]
    omega
  simp only [readStringList, tail?, if_pos hbody, expect_some, ok_bind] at hread
  simp only [bind_eq_ok, pure, Except.pure, Except.ok.injEq] at hread
  obtain ⟨token, -, flags, -, rfl⟩ := hread
  cases hd
  refine ⟨List.forall_mem_nil _, fun _ => zero_not_mem_splitStrings, fun _ => ?_⟩
  have hlength : (m.slice 20 (m.bodySize - 20)).length = m.bodySize - 20 :=
    length_slice (by rw [bodySize]; omega)
  simp only [Draft.bodySize, ← length_flatMap_terminated, Layout.StringList.payload,
    flatMap_splitStrings hlast, hlength]
  rw [bodySize, trailerSize]
  omega

theorem compact_csumMultiRequest (hmax : m.size ≤ maxSize)
    (hverify : m.verifyCsumMultiRequest = .ok ()) (hread : m.readCsumMultiRequest = .ok c)
    (hd : c.draft? = some d) : m.Compact d := by
  obtain ⟨keyId, count, hkeyId, hcount, hfits, hrecords⟩ :=
    (verifyCsumMultiRequest_eq_ok hmax).mp hverify
  have hkeyIdSize : m.readSize Layout.CsumMultiRequest.keyIdSize = .ok keyId.toNat :=
    hkeyId.readSize
  have hcountField : m.readSize Layout.CsumMultiRequest.count = .ok count.toNat := hcount.readSize
  have hkeyIdFits : 32 + 0 + keyId.toNat + trailerSize ≤ m.size := by omega
  have hkeyIdLength : (m.slice (32 + 0) keyId.toNat).length = keyId.toNat :=
    length_slice (by omega)
  simp only [readCsumMultiRequest, hkeyIdSize, hcountField, ok_bind,
    Layout.CsumMultiRequest.payload,
    readRegion_of_fits (show 0 < 32 by decide) hmax hkeyIdFits] at hread
  simp only [bind_eq_ok, pure, Except.pure, Except.ok.injEq] at hread
  obtain ⟨records, hread, token, -, operation, -, uid, -, rfl⟩ := hread
  cases hd
  obtain ⟨hall, hlength⟩ := requestRecords_of_read hmax hfits hrecords hread
  refine ⟨?_, fun r hr => (hall r hr).2, fun _ => ?_⟩
  · intro text htext
    obtain ⟨r, hr, rfl⟩ := List.mem_map.mp htext
    exact (hall r hr).1
  · simp only [Draft.bodySize, hkeyIdLength, Layout.CsumMultiRequest.payload]
    omega

theorem compact_csumMultiReply (hmax : m.size ≤ maxSize)
    (hverify : m.verifyCsumMultiReply = .ok ()) (hread : m.readCsumMultiReply = .ok c)
    (hd : c.draft? = some d) : m.Compact d := by
  obtain ⟨count, hcount, hrecords⟩ := verifyCsumMultiReply_eq_ok.mp hverify
  have hcountField : m.readSize Layout.CsumMultiReply.count = .ok count.toNat := hcount.readSize
  have hbody : 28 + 0 + trailerSize ≤ m.size := hcount.fits
  simp only [readCsumMultiReply, hcountField, ok_bind, bind_eq_ok, pure, Except.pure,
    Except.ok.injEq] at hread
  obtain ⟨records, hread, token, -, operation, -, error, -, rfl⟩ := hread
  cases hd
  obtain ⟨hall, hlength⟩ := replyRecords_of_read hmax hbody hrecords hread
  refine ⟨List.forall_mem_nil _, hall, fun _ => ?_⟩
  simp only [Draft.bodySize, Layout.CsumMultiReply.payload]
  omega

theorem compact_registration (hmax : m.size ≤ maxSize) (hverify : m.verifyRegistration op = .ok ())
    {r : Registration} (hread : m.readRegistration op = .ok r)
    (htexts : d.content.texts = r.label.toList) (hencodable : d.Encodable)
    (hsize : d.bodySize = Layout.Registration.payload + textSize r.label) : m.Compact d := by
  obtain ⟨htext, hfits⟩ := label_of_read hmax hverify hread
  exact ⟨htexts ▸ htext, hencodable, fun _ => hsize ▸ hfits⟩

theorem compact_event (hmax : m.size ≤ maxSize) (hverify : m.verifyEvent op = .ok ()) {e : Event}
    (hread : m.readEvent op = .ok e) : m.Compact (.event e) where
  texts := path_of_read hmax hverify hread
  encodable := trivial
  fits hevent := absurd rfl (hevent e)

theorem compact_outcome (hsize : m.size = Layout.Outcome.bodyEnd + trailerSize)
    (hread : m.readOutcome op = .ok c) (hd : c.draft? = some d) : m.Compact d := by
  simp only [readOutcome, bind_eq_ok, pure, Except.pure, Except.ok.injEq] at hread
  obtain ⟨token, -, uid, -, verdict, -, rfl⟩ := hread
  cases hd
  exact compact_of_exact hsize rfl trivial

theorem compact_of_read (hmax : m.size ≤ maxSize) (hverify : m.verifyLayout op = .ok ())
    (hread : m.readContent op = .ok c) (hd : c.draft? = some d) : m.Compact d := by
  cases op with
  | hello =>
    have hsize := requireExact_eq_ok.mp hverify
    simp only [readContent, readHello, bind_eq_ok, pure, Except.pure, Except.ok.injEq] at hread
    obtain ⟨version, -, minVersion, -, rfl⟩ := hread
    cases hd
    exact compact_of_exact hsize rfl trivial
  | versel =>
    have hsize := requireExact_eq_ok.mp hverify
    simp only [readContent, readVersel, bind_eq_ok, pure, Except.pure, Except.ok.injEq] at hread
    obtain ⟨token, -, version, -, rfl⟩ := hread
    cases hd
    exact compact_of_exact hsize rfl trivial
  | auth =>
    have hsize := requireExact_eq_ok.mp hverify
    simp only [readContent, readAuth, bind_eq_ok, pure, Except.pure, Except.ok.injEq] at hread
    obtain ⟨token, -, authType, -, rfl⟩ := hread
    cases hd
    exact compact_of_exact hsize rfl trivial
  | authChallenge => exact compact_authChallenge hmax hverify hread hd
  | reply =>
    have hsize := requireExact_eq_ok.mp hverify
    simp only [readContent, readReply, bind_eq_ok, pure, Except.pure, Except.ok.injEq] at hread
    obtain ⟨token, -, opcode, -, error, -, rfl⟩ := hread
    cases hd
    exact compact_of_exact hsize rfl trivial
  | close =>
    have hsize := requireExact_eq_ok.mp hverify
    obtain ⟨token, -, rfl⟩ := map_eq_ok.mp hread
    cases hd
    exact compact_of_exact hsize rfl trivial
  | register =>
    obtain ⟨r, hr, rfl⟩ := map_eq_ok.mp hread
    cases hd
    exact compact_registration hmax hverify hr rfl trivial rfl
  | unregister =>
    obtain ⟨⟨token, filter, label⟩, hr, rfl⟩ := map_eq_ok.mp hread
    cases label with
    | none =>
      cases hd
      exact compact_registration hmax hverify hr rfl trivial rfl
    | some label => cases hd
  | notify =>
    obtain ⟨e, he, rfl⟩ := map_eq_ok.mp hread
    cases hd
    exact compact_event hmax hverify he
  | ask =>
    obtain ⟨e, he, rfl⟩ := map_eq_ok.mp hread
    cases hd
    exact compact_event hmax hverify he
  | answer =>
    obtain ⟨⟨⟩, hsize, -⟩ := bind_eq_ok.mp hverify
    replace hsize := requireExact_eq_ok.mp hsize
    simp only [readContent, readAnswer, bind_eq_ok, pure, Except.pure, Except.ok.injEq] at hread
    obtain ⟨token, -, verdict, -, delegate, -, rfl⟩ := hread
    cases hd
    exact compact_of_exact hsize rfl trivial
  | resultYou =>
    obtain ⟨⟨⟩, hsize, -⟩ := bind_eq_ok.mp hverify
    exact compact_outcome (requireExact_eq_ok.mp hsize) hread hd
  | resultOther =>
    obtain ⟨⟨⟩, hsize, -⟩ := bind_eq_ok.mp hverify
    exact compact_outcome (requireExact_eq_ok.mp hsize) hread hd
  | status =>
    have hsize := requireExact_eq_ok.mp hverify
    simp only [readContent, readStatus, bind_eq_ok, pure, Except.pure, Except.ok.injEq] at hread
    obtain ⟨token, -, key, -, value, -, rfl⟩ := hread
    cases hd
    exact compact_of_exact hsize rfl trivial
  | csumRequest => exact compact_csumRequest hmax hverify hread hd
  | stringList => exact compact_stringList hverify hread hd
  | csumMultiRequest => exact compact_csumMultiRequest hmax hverify hread hd
  | csumMultiReply => exact compact_csumMultiReply hmax hverify hread hd
  | retired kind =>
    cases hread
    cases hd

theorem compact_of_decode (h : m.decode = .ok c) (hd : c.draft? = some d) : m.Compact d := by
  obtain ⟨hverify, op, hcode, hread⟩ := decode_eq_ok.mp h
  obtain ⟨-, hmax, -, op', hcode', hlayout⟩ := verify_eq_ok.mp hverify
  have hop : op' = op :=
    Opcode.code_inj.mp (Option.some.inj ((opcode?_eq_some.mpr hcode').symm.trans hcode))
  exact compact_of_read hmax (hop ▸ hlayout) hread hd

end Readers

end Message

namespace Draft

open Message

variable {d : Draft} {m : Message} {c : Content}

/-- The message that is written from a draft says what the draft says, and is what is written from
whatever is read in it. -/
structure Rewritten (d : Draft) (m : Message) : Prop where
  written : d.write = .ok m
  checked : m.check = .ok ()
  read : m.decode = .ok d.content
  again : ∀ d' : Draft, m.decode = .ok d'.content → d'.write = .ok m

theorem content_inj {d d' : Draft} (h : d.content = d'.content) : d = d' := by
  have hd := Content.draft?_content d
  rw [h, Content.draft?_content] at hd
  exact (Option.some.inj hd).symm

theorem rewritten_of_write (hwrite : d.write = .ok m)
    (htexts : ∀ text ∈ d.content.texts, 0 ∉ text) : d.Rewritten m := by
  have hdecode : m.decode = .ok d.content := by
    rw [decode_of_write hwrite, Content.cut_of_texts htexts]
  have hverify := verify_of_decode hdecode
  refine ⟨hwrite, check_eq_ok.mpr ⟨sealed_of_write hwrite, hverify⟩, hdecode, ?_⟩
  intro d' hd'
  obtain rfl : d = d' := content_inj (Except.ok.inj (hdecode.symm.trans hd'))
  exact hwrite

/-- What is read can be written, in no more bytes, and is then read and written without a change;
only an event may need more bytes than it was read from, and more than a message can have. -/
theorem canonical_of_decode (h : m.decode = .ok c) (hretired : ∀ kind, c ≠ .retired kind)
    (hlabel : ∀ r, c = .unregister r → r.label = none) :
    ∃ d : Draft, d.content = c ∧
      ((∀ e, c ≠ .event e) → ∃ m', d.Rewritten m' ∧ m'.size ≤ m.size) ∧
      ∀ e, c = .event e → (∃ m', d.Rewritten m') ∨
        maxSize < d.bodySize + trailerSize ∧
          d.write = .error (.tooLarge d.bodySize) := by
  cases hd : c.draft? with
  | none =>
    obtain ⟨kind, rfl⟩ | ⟨r, rfl, hne⟩ := Content.draft?_eq_none.mp hd
    · exact absurd rfl (hretired kind)
    · exact absurd (hlabel r rfl) hne
  | some d =>
    have hcompact := compact_of_decode h hd
    obtain rfl := Content.content_of_draft? hd
    refine ⟨d, rfl, fun hother => ?_, fun e he => ?_⟩
    · have hfits : d.bodySize + trailerSize ≤ m.size :=
        hcompact.fits fun e he => hother e (he ▸ rfl)
      have hmax : m.size ≤ maxSize := (verify_eq_ok.mp (decode_eq_ok.mp h).1).2.1
      obtain ⟨m', hwrite, hsize⟩ := exists_write hcompact.encodable (Nat.le_trans hfits hmax)
      exact ⟨m', rewritten_of_write hwrite hcompact.texts, hsize ▸ hfits⟩
    · by_cases hfits : d.bodySize + trailerSize ≤ maxSize
      · obtain ⟨m', hwrite, -⟩ := exists_write hcompact.encodable hfits
        exact .inl ⟨m', rewritten_of_write hwrite hcompact.texts⟩
      · have hlarge := Nat.not_le.mp hfits
        exact .inr ⟨hlarge, write_eq_error hcompact.encodable hlarge⟩

def paddedRegistration : Message :=
  .ofBytes ([0, 0, 0, 41] ++ [0, 0, 32, 0] ++ [0, 0, 0, 0, 0, 0, 0, 7] ++ [0, 0, 3, 232] ++
    [0, 0, 0, 2] ++ [0, 0, 0, 3] ++ [0, 0, 0, 4] ++ [97, 0, 98, 0] ++ [99] ++ [0, 0, 0, 0])

theorem canonical_of_decode_padded_registration :
    paddedRegistration.decode = .ok (.register ⟨7, ⟨1000, 2, 3⟩, some [97]⟩) ∧
      ∃ d : Draft, d.content = .register ⟨7, ⟨1000, 2, 3⟩, some [97]⟩ ∧
        ∃ m', d.Rewritten m' ∧ m'.size ≤ 41 := by
  have hdecode : paddedRegistration.decode = .ok (.register ⟨7, ⟨1000, 2, 3⟩, some [97]⟩) := by
    decide +kernel
  obtain ⟨d, hd, hsmall, -⟩ := canonical_of_decode hdecode nofun nofun
  exact ⟨hdecode, d, hd, hsmall nofun⟩

end Draft

end Arbiter
