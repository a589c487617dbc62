import Arbiter.Proofs.Message.Canonical

/-!
What is read of a message lies before its trailer. Messages that differ in their trailers at most
have the same form and the same content, and every field, region, record and string of a content
stands in the body of the message that it was read from.
-/

namespace Arbiter

theorem require_congr {ε : Type} {p q : Prop} [Decidable p] [Decidable q] (h : p ↔ q) (e : ε) :
    require p e = require q e := by
  simp only [require, h]

namespace Message

/-- The messages are of one size and differ in their trailers at most. -/
structure SameBody (m m' : Message) : Prop where
  size : m.size = m'.size
  bytes {i : Nat} : i + trailerSize < m.size → m.bytes[i]? = m'.bytes[i]?

namespace SameBody

variable {m m' : Message}

theorem bodySize (h : m.SameBody m') : m.bodySize = m'.bodySize := by
  rw [Message.bodySize, h.size, Message.bodySize]

theorem slice (h : m.SameBody m') {start count : Nat} (hfits : start + count ≤ m.bodySize) :
    m.slice start count = m'.slice start count := by
  rw [Message.bodySize] at hfits
  exact slice_congr fun i _ hi => h.bytes (by omega)

theorem hasField (h : m.SameBody m') (f : Field) : m.HasField f ↔ m'.HasField f := by
  rw [HasField, h.size, HasField]

theorem hasRegion (h : m.SameBody m') (base start count : Nat) :
    m.HasRegion base start count ↔ m'.HasRegion base start count := by
  rw [HasRegion, h.bodySize, HasRegion]

theorem field? (h : m.SameBody m') (f : Field) : m.field? f = m'.field? f := by
  simp only [Message.field?, ← h.hasField]
  split
  · rename_i hfits
    rw [h.slice (Nat.le_sub_of_add_le hfits)]
  · rfl

theorem region? (h : m.SameBody m') (base start count : Nat) :
    m.region? base start count = m'.region? base start count := by
  simp only [Message.region?, ← h.hasRegion]
  split
  · rename_i hfits
    rw [h.slice hfits.2]
  · rfl

theorem tail? (h : m.SameBody m') (base : Nat) : m.tail? base = m'.tail? base := by
  simp only [Message.tail?, ← h.bodySize]
  split
  · rename_i hfits
    rw [h.slice (Nat.le_of_eq (Nat.add_sub_of_le hfits))]
  · rfl

theorem nat? (h : m.SameBody m') (width : Nat) (f : Field) : m.nat? width f = m'.nat? width f := by
  rw [Message.nat?, h.field?, Message.nat?]

theorem u32? (h : m.SameBody m') (f : Field) : m.u32? f = m'.u32? f := by
  rw [Message.u32?, h.nat?, Message.u32?]

theorem i32? (h : m.SameBody m') (f : Field) : m.i32? f = m'.i32? f := by
  rw [Message.i32?, h.u32?, Message.i32?]

theorem u64? (h : m.SameBody m') (f : Field) : m.u64? f = m'.u64? f := by
  rw [Message.u64?, h.nat?, Message.u64?]

theorem u32At? (h : m.SameBody m') (start : Nat) (f : Field) :
    m.u32At? start f = m'.u32At? start f :=
  h.u32? _

theorem opcode? (h : m.SameBody m') : m.opcode? = m'.opcode? := h.u32? _

theorem requireExact (h : m.SameBody m') (op : Opcode) (bodyEnd : Nat) :
    m.requireExact op bodyEnd = m'.requireExact op bodyEnd := by
  rw [Message.requireExact, h.size, Message.requireExact]

theorem shortOf (h : m.SameBody m') (op : Opcode) (f : Field) :
    m.shortOf op f = m'.shortOf op f := by
  rw [Message.shortOf, h.size, Message.shortOf]

theorem requireField (h : m.SameBody m') (op : Opcode) (f : Field) :
    m.requireField op f = m'.requireField op f := by
  rw [Message.requireField, h.shortOf, require_congr (h.hasField f), Message.requireField]

theorem expectSize (h : m.SameBody m') (op : Opcode) (f : Field) :
    m.expectSize op f = m'.expectSize op f := by
  rw [Message.expectSize, h.u32?, h.shortOf, Message.expectSize]

theorem requireVerdict (h : m.SameBody m') (op : Opcode) (f : Field) :
    m.requireVerdict op f = m'.requireVerdict op f := by
  rw [Message.requireVerdict, h.i32?, h.size, Message.requireVerdict]

section Regions

variable (op : Opcode) (base start count : Nat) (region : String)

theorem requireRegion (h : m.SameBody m') : m.requireRegion op base start count region =
    m'.requireRegion op base start count region :=
  require_congr (h.hasRegion base start count) _

theorem requireString (h : m.SameBody m') : m.requireString op base start count region =
    m'.requireString op base start count region := by
  rw [Message.requireString, h.region?, Message.requireString]

theorem readRegion (h : m.SameBody m') : m.readRegion op base start count region =
    m'.readRegion op base start count region := by
  rw [Message.readRegion, h.region?, Message.readRegion]

end Regions

theorem verifyRequestRecords (h : m.SameBody m') (count index cursor : Nat) :
    m.verifyRequestRecords count index cursor = m'.verifyRequestRecords count index cursor := by
  induction count generalizing index cursor with
  | zero => rfl
  | succ count ih =>
    simp only [Message.verifyRequestRecords, require_congr (h.hasRegion _ _ _), h.u32At?,
      h.requireRegion, h.requireString, ih]

theorem verifyReplyRecords (h : m.SameBody m') (count index cursor : Nat) :
    m.verifyReplyRecords count index cursor = m'.verifyReplyRecords count index cursor := by
  induction count generalizing index cursor with
  | zero => rfl
  | succ count ih =>
    simp only [Message.verifyReplyRecords, require_congr (h.hasRegion _ _ _), h.u32At?,
      h.requireRegion, ih]

theorem verifyLayout (h : m.SameBody m') (op : Opcode) :
    m.verifyLayout op = m'.verifyLayout op := by
  cases op <;>
    simp only [Message.verifyLayout, verifyAuthChallenge, verifyRegistration, verifyEvent,
      verifyCsumRequest, verifyStringList, verifyCsumMultiRequest, verifyCsumMultiReply,
      h.requireExact, h.requireField, h.expectSize, h.requireVerdict, h.requireRegion,
      h.requireString, h.tail?, h.verifyRequestRecords, h.verifyReplyRecords]

theorem verify (h : m.SameBody m') : m.verify = m'.verify := by
  simp only [Message.verify, declaredSize?, h.size, h.u32?, h.opcode?, h.verifyLayout]

theorem readU32 (h : m.SameBody m') (f : Field) : m.readU32 f = m'.readU32 f := by
  rw [Message.readU32, h.u32?, h.size, Message.readU32]

theorem readI32 (h : m.SameBody m') (f : Field) : m.readI32 f = m'.readI32 f := by
  rw [Message.readI32, h.i32?, h.size, Message.readI32]

theorem readToken (h : m.SameBody m') : m.readToken = m'.readToken := by
  rw [Message.readToken, readU64, h.u64?, h.size, Message.readToken, readU64]

theorem readSize (h : m.SameBody m') (f : Field) : m.readSize f = m'.readSize f := by
  rw [Message.readSize, h.readU32, Message.readSize]

theorem readVerdict (h : m.SameBody m') (op : Opcode) (f : Field) :
    m.readVerdict op f = m'.readVerdict op f := by
  rw [Message.readVerdict, h.readI32, Message.readVerdict]

theorem readRequestRecords (h : m.SameBody m') (count index cursor : Nat) :
    m.readRequestRecords count index cursor = m'.readRequestRecords count index cursor := by
  induction count generalizing index cursor with
  | zero => rfl
  | succ count ih => simp only [Message.readRequestRecords, h.u32At?, h.readRegion, ih]

theorem readReplyRecords (h : m.SameBody m') (count index cursor : Nat) :
    m.readReplyRecords count index cursor = m'.readReplyRecords count index cursor := by
  induction count generalizing index cursor with
  | zero => rfl
  | succ count ih => simp only [Message.readReplyRecords, h.u32At?, h.readRegion, ih]

theorem readContent (h : m.SameBody m') (op : Opcode) : m.readContent op = m'.readContent op := by
  cases op <;>
    simp only [Message.readContent, readHello, readVersel, readAuth, readAuthChallenge, readReply,
      readRegistration, readEvent, readSpan, readAnswer, readOutcome, readStatus, readCsumRequest,
      readStringList, readCsumMultiRequest, readCsumMultiReply, h.readU32, h.readI32, h.readToken,
      h.readSize, h.readVerdict, h.readRegion, h.tail?, h.readRequestRecords, h.readReplyRecords]

theorem decode (h : m.SameBody m') : m.decode = m'.decode := by
  simp only [Message.decode, h.verify, h.opcode?, h.size, h.readContent]

theorem token? (h : m.SameBody m') : m.token? = m'.token? := by
  simp only [Message.token?, h.opcode?, h.u64?]

end SameBody

end Message

namespace RequestRecord

def parts (r : RequestRecord) : List Bytes := [u32Bytes r.index, r.checksum, r.path]

end RequestRecord

namespace ReplyRecord

def parts (r : ReplyRecord) : List Bytes := [u32Bytes r.index, i32Bytes r.error, r.checksum]

end ReplyRecord

def Filter.parts (f : Filter) : List Bytes :=
  [u32Bytes f.uid, u32Bytes f.ruleId, u32Bytes f.subsystem]

def Registration.parts (r : Registration) : List Bytes :=
  u64Bytes r.token :: r.filter.parts ++ r.label.toList

def Event.parts (e : Event) : List Bytes :=
  u64Bytes e.token :: u32Bytes e.pid :: u32Bytes e.priority :: e.checksum :: e.detail ::
    e.key.parts ++ e.path.toList

/-- The fields, regions and strings of a content and of its records, as bytes. Of a flag no more is
known than whether it is set. -/
def Content.parts : Content → List Bytes
  | hello version minVersion => [u32Bytes version, u32Bytes minVersion]
  | versel token version => [u64Bytes token, u32Bytes version]
  | auth token authType => [u64Bytes token, u32Bytes authType]
  | authChallenge token authType challenge keyId =>
    [u64Bytes token, u32Bytes authType, challenge, keyId]
  | reply token opcode error => [u64Bytes token, u32Bytes opcode, i32Bytes error]
  | close token => [u64Bytes token]
  | register r => r.parts
  | unregister r => r.parts
  | event e => e.parts
  | answer token verdict _ => [u64Bytes token, i32Bytes verdict.code]
  | outcome token _ uid verdict => [u64Bytes token, u32Bytes uid, i32Bytes verdict.code]
  | status token key value => [u64Bytes token, u32Bytes key, u32Bytes value]
  | csumRequest token operation uid keyId path =>
    [u64Bytes token, u32Bytes operation, u32Bytes uid, keyId, path]
  | stringList token flags strings => u64Bytes token :: u32Bytes flags :: strings
  | csumMultiRequest token operation uid keyId records =>
    u64Bytes token :: u32Bytes operation :: u32Bytes uid :: keyId ::
      records.flatMap RequestRecord.parts
  | csumMultiReply token operation error records =>
    u64Bytes token :: u32Bytes operation :: i32Bytes error :: records.flatMap ReplyRecord.parts
  | retired _ => []

namespace Message

variable {m : Message} {op : Opcode} {f : Field} {bs : Bytes}

def InBody (m : Message) (bytes : Bytes) : Prop := ∃ offset, m.Holds offset bytes

theorem inBody_of_u32? {n : UInt32} (h : m.u32? f = some n) : m.InBody (u32Bytes n) := by
  obtain ⟨offset, size⟩ := f
  by_cases hsize : size = 4
  · subst hsize
    exact ⟨offset, u32?_eq_some.mp h⟩
  · simp [u32?, nat?, hsize] at h

theorem inBody_of_i32? {n : Int32} (h : m.i32? f = some n) : m.InBody (i32Bytes n) := by
  obtain ⟨code, hcode, rfl⟩ := Option.map_eq_some_iff.mp h
  exact inBody_of_u32? hcode

theorem inBody_of_readU32 {n : UInt32} (h : m.readU32 f = .ok n) : m.InBody (u32Bytes n) :=
  inBody_of_u32? (expect_eq_ok.mp h)

theorem inBody_of_readI32 {n : Int32} (h : m.readI32 f = .ok n) : m.InBody (i32Bytes n) :=
  inBody_of_i32? (expect_eq_ok.mp h)

theorem inBody_of_readToken {n : UInt64} (h : m.readToken = .ok n) : m.InBody (u64Bytes n) :=
  ⟨8, u64?_eq_some.mp (expect_eq_ok.mp h)⟩

theorem inBody_of_readVerdict {v : Verdict} (h : m.readVerdict op f = .ok v) :
    m.InBody (i32Bytes v.code) := by
  obtain ⟨code, hcode, hv⟩ := bind_eq_ok.mp h
  rw [Verdict.ofCode?_eq_some.mp (expect_eq_ok.mp hv)]
  exact inBody_of_readI32 hcode

theorem inBody_of_readRegion {base start count : Nat} {region : String} (hbase : 0 < base)
    (hmax : m.size ≤ maxSize) (h : m.readRegion op base start count region = .ok bs) :
    m.InBody bs := by
  obtain ⟨hfits, hbs⟩ := Option.ite_none_right_eq_some.mp (expect_eq_ok.mp h)
  exact ⟨_, Option.some.inj hbs ▸ holds_slice ((hasRegion_iff hbase hmax).mp hfits)⟩

theorem inBody_of_readSpan {start size : Field} {region : String} (hmax : m.size ≤ maxSize)
    (h : m.readSpan op start size region = .ok bs) : m.InBody bs := by
  obtain ⟨_, -, h⟩ := bind_eq_ok.mp h
  obtain ⟨_, -, h⟩ := bind_eq_ok.mp h
  exact inBody_of_readRegion (by decide) hmax h

theorem InBody.left {cs : Bytes} (h : m.InBody (bs ++ cs)) : m.InBody bs :=
  h.imp fun _ => Holds.left

theorem InBody.right {cs : Bytes} (h : m.InBody (bs ++ cs)) : m.InBody cs := by
  obtain ⟨offset, h⟩ := h
  exact ⟨_, h.right⟩

theorem InBody.untilZero (h : m.InBody bs) : m.InBody (untilZero bs) := by
  rw [← List.takeWhile_append_dropWhile (p := (· != 0)) (l := bs)] at h
  exact h.left

theorem InBody.of_flatMap {strings : List Bytes} (h : m.InBody (strings.flatMap terminated)) :
    ∀ s ∈ strings, m.InBody s := by
  intro s hs
  obtain ⟨front, back, rfl⟩ := List.append_of_mem hs
  rw [List.flatMap_append, List.flatMap_cons, terminated, List.append_assoc] at h
  exact h.right.left

theorem parts_of_readRegistration (hmax : m.size ≤ maxSize) {r : Registration}
    (h : m.readRegistration op = .ok r) : ∀ part ∈ r.parts, m.InBody part := by
  obtain ⟨size, -, h⟩ := bind_eq_ok.mp h
  split at h <;>
    simp only [bind_eq_ok, map_eq_ok, pure, Except.pure, Except.ok.injEq] at h <;>
    obtain ⟨label, hlabel, token, htoken, uid, huid, ruleId, hruleId, subsystem, hsubsystem, rfl⟩ :=
      h <;>
    simp only [Registration.parts, Filter.parts, List.cons_append, List.nil_append,
      List.forall_mem_cons] <;>
    refine ⟨inBody_of_readToken htoken, inBody_of_readU32 huid, inBody_of_readU32 hruleId,
      inBody_of_readU32 hsubsystem, ?_⟩
  · rw [← hlabel]
    exact List.forall_mem_nil _
  · obtain ⟨text, htext, rfl⟩ := hlabel
    exact List.forall_mem_singleton.mpr (inBody_of_readRegion (by decide) hmax htext).untilZero

theorem parts_of_readEvent (hmax : m.size ≤ maxSize) {e : Event}
    (h : m.readEvent op = .ok e) : ∀ part ∈ e.parts, m.InBody part := by
  obtain ⟨size, -, h⟩ := bind_eq_ok.mp h
  split at h <;>
    simp only [bind_eq_ok, map_eq_ok, pure, Except.pure, Except.ok.injEq] at h <;>
    obtain ⟨path, hpath, token, htoken, pid, hpid, uid, huid, ruleId, hruleId, subsystem,
      hsubsystem, priority, hpriority, checksum, hchecksum, detail, hdetail, rfl⟩ := h <;>
    simp only [Event.parts, Event.key, Filter.parts, List.cons_append, List.nil_append,
      List.forall_mem_cons] <;>
    refine ⟨inBody_of_readToken htoken, inBody_of_readU32 hpid, inBody_of_readU32 hpriority,
      inBody_of_readSpan hmax hchecksum, inBody_of_readSpan hmax hdetail, inBody_of_readU32 huid,
      inBody_of_readU32 hruleId, inBody_of_readU32 hsubsystem, ?_⟩
  · rw [← hpath]
    exact List.forall_mem_nil _
  · obtain ⟨text, htext, rfl⟩ := hpath
    exact List.forall_mem_singleton.mpr (inBody_of_readSpan hmax htext).untilZero

theorem parts_of_readRequestRecords (hmax : m.size ≤ maxSize) {count index cursor : Nat}
    {records : List RequestRecord} (h : m.readRequestRecords count index cursor = .ok records) :
    ∀ part ∈ records.flatMap RequestRecord.parts, m.InBody part := by
  induction count generalizing index cursor records with
  | zero =>
    cases h
    exact List.forall_mem_nil _
  | succ count ih =>
    simp only [readRequestRecords, bind_eq_ok, expect_eq_ok, pure, Except.pure,
      Except.ok.injEq] at h
    obtain ⟨size, -, checksumSize, -, pathSize, -, number, hnumber, checksum, hchecksum, path,
      hpath, rest, hrest, rfl⟩ := h
    rw [List.flatMap_cons, List.forall_mem_append]
    refine ⟨?_, ih hrest⟩
    simp only [RequestRecord.parts, List.forall_mem_cons]
    exact ⟨inBody_of_u32? hnumber, inBody_of_readRegion (by decide) hmax hchecksum,
      (inBody_of_readRegion (by decide) hmax hpath).untilZero, List.forall_mem_nil _⟩

theorem parts_of_readReplyRecords (hmax : m.size ≤ maxSize) {count index cursor : Nat}
    {records : List ReplyRecord} (h : m.readReplyRecords count index cursor = .ok records) :
    ∀ part ∈ records.flatMap ReplyRecord.parts, m.InBody part := by
  induction count generalizing index cursor records with
  | zero =>
    cases h
    exact List.forall_mem_nil _
  | succ count ih =>
    simp only [readReplyRecords, bind_eq_ok, expect_eq_ok, pure, Except.pure,
      Except.ok.injEq] at h
    obtain ⟨size, -, checksumSize, -, number, hnumber, error, herror, checksum, hchecksum, rest,
      hrest, rfl⟩ := h
    rw [List.flatMap_cons, List.forall_mem_append]
    refine ⟨?_, ih hrest⟩
    simp only [ReplyRecord.parts, List.forall_mem_cons]
    exact ⟨inBody_of_u32? hnumber, inBody_of_u32? herror,
      inBody_of_readRegion (by decide) hmax hchecksum, List.forall_mem_nil _⟩

theorem parts_of_readStringList (hverify : m.verifyStringList = .ok ()) {c : Content}
    (h : m.readStringList = .ok c) : ∀ part ∈ c.parts, m.InBody part := by
  obtain ⟨hsize, hlast⟩ := verifyStringList_eq_ok.mp hverify
  simp only [readStringList, bind_eq_ok, expect_eq_ok, tail?, pure, Except.pure,
    Except.ok.injEq] at h
  obtain ⟨payload, hpayload, token, htoken, flags, hflags, rfl⟩ := h
  obtain ⟨hbody, hpayload⟩ := Option.ite_none_right_eq_some.mp hpayload
  obtain rfl := Option.some.inj hpayload
  have hheld : m.InBody (m.slice 20 (m.bodySize - 20)) := by
    refine ⟨20, holds_slice ?_⟩
    rw [bodySize, trailerSize]
    omega
  rw [← flatMap_splitStrings hlast] at hheld
  simp only [Content.parts, List.forall_mem_cons]
  exact ⟨inBody_of_readToken htoken, inBody_of_readU32 hflags, hheld.of_flatMap⟩

theorem parts_of_readContent (hmax : m.size ≤ maxSize) (hverify : m.verifyLayout op = .ok ())
    {c : Content} (h : m.readContent op = .ok c) : ∀ part ∈ c.parts, m.InBody part := by
  cases op <;>
    simp only [readContent, readHello, readVersel, readAuth, readAuthChallenge, readReply,
      readAnswer, readOutcome, readStatus, readCsumRequest, readCsumMultiRequest,
      readCsumMultiReply, bind_eq_ok, map_eq_ok, pure, Except.pure, Except.ok.injEq] at h
  case register | unregister =>
    obtain ⟨r, hr, rfl⟩ := h
    exact parts_of_readRegistration hmax hr
  case notify | ask =>
    obtain ⟨e, he, rfl⟩ := h
    exact parts_of_readEvent hmax he
  case stringList => exact parts_of_readStringList hverify h
  case authChallenge =>
    obtain ⟨_, -, _, -, token, htoken, authType, hauthType, challenge, hchallenge, keyId, hkeyId,
      rfl⟩ := h
    simp only [Content.parts, List.forall_mem_cons]
    exact ⟨inBody_of_readToken htoken, inBody_of_readU32 hauthType,
      inBody_of_readRegion (by decide) hmax hchallenge,
      inBody_of_readRegion (by decide) hmax hkeyId, List.forall_mem_nil _⟩
  case csumRequest =>
    obtain ⟨_, -, _, -, path, hpath, token, htoken, operation, hoperation, uid, huid, keyId, hkeyId,
      rfl⟩ := h
    simp only [Content.parts, List.forall_mem_cons]
    exact ⟨inBody_of_readToken htoken, inBody_of_readU32 hoperation, inBody_of_readU32 huid,
      inBody_of_readRegion (by decide) hmax hkeyId,
      (inBody_of_readRegion (by decide) hmax hpath).untilZero, List.forall_mem_nil _⟩
  case csumMultiRequest =>
    obtain ⟨_, -, _, -, records, hrecords, token, htoken, operation, hoperation, uid, huid, keyId,
      hkeyId, rfl⟩ := h
    simp only [Content.parts, List.forall_mem_cons]
    exact ⟨inBody_of_readToken htoken, inBody_of_readU32 hoperation, inBody_of_readU32 huid,
      inBody_of_readRegion (by decide) hmax hkeyId, parts_of_readRequestRecords hmax hrecords⟩
  case csumMultiReply =>
    obtain ⟨_, -, records, hrecords, token, htoken, operation, hoperation, error, herror, rfl⟩ := h
    simp only [Content.parts, List.forall_mem_cons]
    exact ⟨inBody_of_readToken htoken, inBody_of_readU32 hoperation, inBody_of_readI32 herror,
      parts_of_readReplyRecords hmax hrecords⟩
  -- The others have fields alone.
  all_goals grind [Content.parts, inBody_of_readU32, inBody_of_readI32, inBody_of_readToken,
    inBody_of_readVerdict]

theorem parts_of_decode {c : Content} (h : m.decode = .ok c) : ∀ part ∈ c.parts, m.InBody part := by
  obtain ⟨hverify, op, hop, hread⟩ := decode_eq_ok.mp h
  obtain ⟨-, hmax, -, op', hop', hlayout⟩ := verify_eq_ok.mp hverify
  obtain rfl : op = op' :=
    Opcode.code_inj.mp (Option.some.inj (hop.symm.trans (opcode?_eq_some.mpr hop')))
  exact parts_of_readContent hmax hlayout hread

/-- Whatever stands in the trailer, the message has the same form, content and token, and nothing in
its content is taken from there. -/
theorem trailer_unread {m' : Message} (h : m.SameBody m') :
    m.verify = m'.verify ∧ m.decode = m'.decode ∧ m.token? = m'.token? ∧
      ∀ content, m.decode = .ok content → ∀ part ∈ content.parts, m.InBody part :=
  ⟨h.verify, h.decode, h.token?, fun _ => parts_of_decode⟩

def oneString (trailer : Bytes) : Message :=
  .ofBytes ([0, 0, 0, 26, 0, 0, 48, 1, 0, 0, 0, 0, 0, 0, 0, 7, 0, 0, 0, 0, 97, 0] ++ trailer)

theorem trailer_unread_oneString :
    (oneString [98, 98, 98, 0]).SameBody (oneString [0, 1, 2, 3]) ∧
      (oneString [98, 98, 98, 0]).decode = .ok (.stringList 7 0 [[97]]) ∧
      (oneString [98, 98, 98, 0]).decode = (oneString [0, 1, 2, 3]).decode ∧
      (oneString [98, 98, 98, 0]).InBody [97] := by
  have hbytes : ∀ i < 22, (oneString [98, 98, 98, 0]).bytes[i]? =
      (oneString [0, 1, 2, 3]).bytes[i]? := by decide
  have hsame : (oneString [98, 98, 98, 0]).SameBody (oneString [0, 1, 2, 3]) :=
    ⟨rfl, fun hi => hbytes _ (Nat.lt_of_add_lt_add_right hi)⟩
  have hdecode : (oneString [98, 98, 98, 0]).decode = .ok (.stringList 7 0 [[97]]) := by decide
  obtain ⟨-, hsameContent, -, hparts⟩ := trailer_unread hsame
  exact ⟨hsame, hdecode, hsameContent, hparts _ hdecode _ (by decide)⟩

end Message

end Arbiter
