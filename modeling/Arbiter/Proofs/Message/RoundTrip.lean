import Arbiter.Proofs.Message.Records

/-!
Decoding undoes encoding, over the whole format. A draft is anything that can be written; the
message written from it passes the check, and decoding the message gives the draft back with its
labels and paths cut at their first zero byte.
-/

namespace Arbiter

/-- Everything that can be written, one constructor for each way to write a message. -/
inductive Draft where
  | hello (version minVersion : UInt32)
  | versel (token : UInt64) (version : UInt32)
  | auth (token : UInt64) (authType : UInt32)
  | authChallenge (token : UInt64) (authType : UInt32) (challenge keyId : Bytes)
  | reply (token : UInt64) (answered : UInt32) (error : Int32)
  | close (token : UInt64)
  | register (r : Registration)
  | unregister (token : UInt64) (filter : Filter)
  | event (e : Event)
  | answer (token : UInt64) (verdict : Verdict) (delegate : Bool)
  | outcome (token : UInt64) (you : Bool) (uid : UInt32) (verdict : Verdict)
  | status (token : UInt64) (key value : UInt32)
  | csumRequest (token : UInt64) (operation uid : UInt32) (keyId path : Bytes)
  | stringList (token : UInt64) (flags : UInt32) (strings : List Bytes)
  | csumMultiRequest (token : UInt64) (operation uid : UInt32) (keyId : Bytes)
      (records : List RequestRecord)
  | csumMultiReply (token : UInt64) (operation : UInt32) (error : Int32)
      (records : List ReplyRecord)
deriving DecidableEq

namespace Draft

def write : Draft → Except Fault Message
  | hello version minVersion => Message.hello version minVersion
  | versel token version => Message.versel token version
  | auth token authType => Message.auth token authType
  | authChallenge token authType challenge keyId =>
    Message.authChallenge token authType challenge keyId
  | reply token answered error => Message.reply token answered error
  | close token => Message.close token
  | register r => Message.register r
  | unregister token filter => Message.unregister token filter
  | event e => Message.event e
  | answer token verdict delegate => Message.answer token verdict delegate
  | outcome token you uid verdict => Message.outcome token you uid verdict
  | status token key value => Message.status token key value
  | csumRequest token operation uid keyId path =>
    Message.csumRequest token operation uid keyId path
  | stringList token flags strings => Message.stringList token flags strings
  | csumMultiRequest token operation uid keyId records =>
    Message.csumMultiRequest token operation uid keyId records
  | csumMultiReply token operation error records =>
    Message.csumMultiReply token operation error records

def content : Draft → Content
  | hello version minVersion => .hello version minVersion
  | versel token version => .versel token version
  | auth token authType => .auth token authType
  | authChallenge token authType challenge keyId => .authChallenge token authType challenge keyId
  | reply token answered error => .reply token answered error
  | close token => .close token
  | register r => .register r
  | unregister token filter => .unregister ⟨token, filter, none⟩
  | event e => .event e
  | answer token verdict delegate => .answer token verdict delegate
  | outcome token you uid verdict => .outcome token you uid verdict
  | status token key value => .status token key value
  | csumRequest token operation uid keyId path => .csumRequest token operation uid keyId path
  | stringList token flags strings => .stringList token flags strings
  | csumMultiRequest token operation uid keyId records =>
    .csumMultiRequest token operation uid keyId records
  | csumMultiReply token operation error records => .csumMultiReply token operation error records

end Draft

namespace Content

def texts : Content → List Bytes
  | register r => r.label.toList
  | unregister r => r.label.toList
  | event e => e.path.toList
  | csumRequest _ _ _ _ path => [path]
  | csumMultiRequest _ _ _ _ records => records.map RequestRecord.path
  | _ => []

def cut : Content → Content
  | register r => register { r with label := r.label.map Message.untilZero }
  | unregister r => unregister { r with label := r.label.map Message.untilZero }
  | event e => event { e with path := e.path.map Message.untilZero }
  | csumRequest token operation uid keyId path =>
    csumRequest token operation uid keyId (Message.untilZero path)
  | csumMultiRequest token operation uid keyId records =>
    csumMultiRequest token operation uid keyId (records.map RequestRecord.cut)
  | c => c

theorem map_untilZero_of_not_mem {text : Option Bytes} (h : ∀ t ∈ text.toList, 0 ∉ t) :
    text.map Message.untilZero = text := by
  cases text with
  | none => rfl
  | some t =>
    have ht : 0 ∉ t := h t (by simp)
    rw [Option.map_some, Message.untilZero_of_not_mem ht]

theorem map_cut_of_not_mem {records : List RequestRecord} (h : ∀ r ∈ records, 0 ∉ r.path) :
    records.map RequestRecord.cut = records := by
  have hcut : ∀ r ∈ records, r.cut = id r := by
    intro r hr
    rw [RequestRecord.cut, Message.untilZero_of_not_mem (h r hr), id]
  rw [List.map_congr_left hcut, List.map_id]

theorem cut_of_texts {c : Content} (h : ∀ t ∈ c.texts, 0 ∉ t) : c.cut = c := by
  cases c with
  | register r => rw [cut, map_untilZero_of_not_mem h]
  | unregister r => rw [cut, map_untilZero_of_not_mem h]
  | event e => rw [cut, map_untilZero_of_not_mem h]
  | csumRequest token operation uid keyId path =>
    rw [cut, Message.untilZero_of_not_mem (h path (List.mem_singleton_self path))]
  | csumMultiRequest token operation uid keyId records =>
    rw [cut, map_cut_of_not_mem fun r hr => h r.path (List.mem_map_of_mem hr)]
  | _ => rfl

end Content

namespace Message

variable {m : Message}

theorem requireExact_of_compose {op : Opcode} {fields : Bytes} {bodyEnd : Nat}
    (h : compose op fields = .ok m) (hlength : headerSize + fields.length = bodyEnd) :
    m.requireExact op bodyEnd = .ok () := by
  have hsize : m.size = bodyEnd + trailerSize := by rw [size_of_compose h, hlength]
  exact require_of hsize _

theorem verify_of_decode {c : Content} (h : m.decode = .ok c) : m.verify = .ok () := by
  cases hverify : m.verify with
  | ok => rfl
  | error fault => simp [decode, hverify, bind, Except.bind] at h

section Fixed

variable {token : UInt64}

theorem decode_hello {version minVersion : UInt32} (h : hello version minVersion = .ok m) :
    m.decode = .ok (.hello version minVersion) := by
  have hfields := holds_of_compose h
  have hversion : m.readU32 Layout.Hello.version = .ok version := hfields.left.readU32
  have hmin : m.readU32 Layout.Hello.minVersion = .ok minVersion := hfields.afterU32.readU32
  have hlayout : m.verifyLayout .hello = .ok () :=
    requireExact_of_compose h (by simp [headerSize, Layout.Hello.bodyEnd])
  rw [decode_of_compose h hlayout]
  simp only [readContent, readHello, hversion, hmin, ok_bind]
  rfl

theorem decode_versel {version : UInt32} (h : versel token version = .ok m) :
    m.decode = .ok (.versel token version) := by
  have hfields := holds_of_compose h
  have htoken : m.readToken = .ok token := hfields.left.readToken
  have hversion : m.readU32 Layout.Versel.version = .ok version := hfields.afterToken.readU32
  have hlayout : m.verifyLayout .versel = .ok () :=
    requireExact_of_compose h (by simp [headerSize, Layout.Versel.bodyEnd])
  rw [decode_of_compose h hlayout]
  simp only [readContent, readVersel, htoken, hversion, ok_bind]
  rfl

theorem decode_auth {authType : UInt32} (h : auth token authType = .ok m) :
    m.decode = .ok (.auth token authType) := by
  have hfields := holds_of_compose h
  have htoken : m.readToken = .ok token := hfields.left.readToken
  have htype : m.readU32 Layout.Auth.authType = .ok authType := hfields.afterToken.readU32
  have hlayout : m.verifyLayout .auth = .ok () :=
    requireExact_of_compose h (by simp [headerSize, Layout.Auth.bodyEnd])
  rw [decode_of_compose h hlayout]
  simp only [readContent, readAuth, htoken, htype, ok_bind]
  rfl

theorem decode_reply {answered : UInt32} {error : Int32} (h : reply token answered error = .ok m) :
    m.decode = .ok (.reply token answered error) := by
  have hfields := (holds_of_compose h).assoc
  have htoken : m.readToken = .ok token := hfields.left.readToken
  have hanswered : m.readU32 Layout.Reply.opcode = .ok answered := hfields.afterToken.left.readU32
  have herror : m.readI32 Layout.Reply.error = .ok error := hfields.afterToken.afterU32.readI32
  have hlayout : m.verifyLayout .reply = .ok () :=
    requireExact_of_compose h (by simp [headerSize, Layout.Reply.bodyEnd])
  rw [decode_of_compose h hlayout]
  simp only [readContent, readReply, htoken, hanswered, herror, ok_bind]
  rfl

theorem decode_close (h : close token = .ok m) : m.decode = .ok (.close token) := by
  have htoken : m.readToken = .ok token := (holds_of_compose h).readToken
  have hlayout : m.verifyLayout .close = .ok () :=
    requireExact_of_compose h (by simp [headerSize, Layout.Close.bodyEnd])
  rw [decode_of_compose h hlayout, readContent, htoken]
  rfl

theorem decode_status {key value : UInt32} (h : status token key value = .ok m) :
    m.decode = .ok (.status token key value) := by
  have hfields := (holds_of_compose h).assoc
  have htoken : m.readToken = .ok token := hfields.left.readToken
  have hkey : m.readU32 Layout.Status.key = .ok key := hfields.afterToken.left.readU32
  have hvalue : m.readU32 Layout.Status.value = .ok value := hfields.afterToken.afterU32.readU32
  have hlayout : m.verifyLayout .status = .ok () :=
    requireExact_of_compose h (by simp [headerSize, Layout.Status.bodyEnd])
  rw [decode_of_compose h hlayout]
  simp only [readContent, readStatus, htoken, hkey, hvalue, ok_bind]
  rfl

theorem decode_answer {verdict : Verdict} {delegate : Bool}
    (h : answer token verdict delegate = .ok m) :
    m.decode = .ok (.answer token verdict delegate) := by
  have hfields := (holds_of_compose h).assoc
  have htoken : m.readToken = .ok token := hfields.left.readToken
  have hverdict : m.i32? Layout.Answer.verdict = some verdict.code := hfields.afterToken.left.i32?
  have hdelegate : m.readU32 Layout.Answer.delegate = .ok (if delegate then 1 else 0) :=
    hfields.afterToken.afterI32.readU32
  rw [decode_of_compose h]
  · simp only [readContent, readAnswer, readVerdict, readI32, htoken, hverdict, hdelegate,
      expect_some, ok_bind, Verdict.ofCode?_code]
    cases delegate <;> rfl
  · have hexact : m.requireExact .answer Layout.Answer.bodyEnd = .ok () :=
      requireExact_of_compose h (by simp [headerSize, Layout.Answer.bodyEnd])
    simp only [verifyLayout, hexact, requireVerdict, hverdict, expect_some, ok_bind,
      require_of verdict.nonneg]

end Fixed

section Regions

variable {token : UInt64}

theorem decode_authChallenge {authType : UInt32} {challenge keyId : Bytes}
    (h : authChallenge token authType challenge keyId = .ok m) :
    m.decode = .ok (.authChallenge token authType challenge keyId) := by
  have hmax := size_le_of_compose h
  have hfields := holds_of_compose h
  have htoken : m.readToken = .ok token := hfields.left.readToken
  have htype : m.readU32 Layout.AuthChallenge.authType = .ok authType :=
    hfields.afterToken.left.readU32
  have hsizes := hfields.afterToken.afterU32
  have hregions := hsizes.afterSize.afterSize
  have hchallenge : m.Holds (Layout.AuthChallenge.payload + 0) challenge := hregions.left
  have hkeyId : m.Holds (Layout.AuthChallenge.payload + challenge.length) keyId :=
    hregions.right
  have hlast : m.requireField .authChallenge Layout.AuthChallenge.keyIdSize = .ok () :=
    hsizes.afterSize.left.requireSizeField _
  have hchallengeSize :
      (m.u32? Layout.AuthChallenge.challengeSize).map UInt32.toNat = some challenge.length :=
    hsizes.left.sizeField (hchallenge.length_le hmax)
  have hkeyIdSize :
      (m.u32? Layout.AuthChallenge.keyIdSize).map UInt32.toNat = some keyId.length :=
    hsizes.afterSize.left.sizeField (hkeyId.length_le hmax)
  have hlayout : m.verifyLayout .authChallenge = .ok () := by
    simp only [verifyLayout, verifyAuthChallenge, hlast, expectSize_of_size hchallengeSize,
      expectSize_of_size hkeyIdSize, hchallenge.requireRegion _ _ hmax,
      hkeyId.requireRegion _ _ hmax, ok_bind]
  rw [decode_of_compose h hlayout]
  simp only [readContent, readAuthChallenge, readSize_of_size hchallengeSize,
    readSize_of_size hkeyIdSize, htoken, htype, hchallenge.readRegion _ _ hmax,
    hkeyId.readRegion _ _ hmax, ok_bind]
  rfl

theorem length_terminated_ne_zero (text : Bytes) : (terminated text).length ≠ 0 := by
  simp [terminated]

theorem registration_of_compose {op : Opcode} {filter : Filter} {label : Option Bytes}
    (h : registration op token filter label = .ok m) :
    m.verifyRegistration op = .ok () ∧
      m.readRegistration op = .ok ⟨token, filter, label.map untilZero⟩ := by
  unfold registration at h
  have hmax := size_le_of_compose h
  have hfields := holds_of_compose h
  have htoken : m.readToken = .ok token := hfields.left.readToken
  have hfilter := hfields.afterToken.left
  have huid : m.readU32 Layout.Registration.uid = .ok filter.uid := hfilter.left.left.readU32
  have hrule : m.readU32 Layout.Registration.ruleId = .ok filter.ruleId :=
    hfilter.left.right.readU32
  have hsubsystem : m.readU32 Layout.Registration.subsystem = .ok filter.subsystem :=
    hfilter.right.readU32
  have hlabel : m.Holds (Layout.Registration.payload + 0) (optionalText label) :=
    hfields.afterToken.afterFilter.afterSize
  have hlast : m.requireField op Layout.Registration.labelSize = .ok () :=
    hfields.afterToken.afterFilter.left.requireSizeField _
  have hsize : (m.u32? Layout.Registration.labelSize).map UInt32.toNat =
      some (optionalText label).length :=
    hfields.afterToken.afterFilter.left.sizeField (hlabel.length_le hmax)
  -- Whether there is a label at all is told by its length alone.
  cases label with
  | none =>
    have hzero : (optionalText none).length = 0 := rfl
    constructor
    · simp only [verifyRegistration, hlast, expectSize_of_size hsize, ok_bind, hzero, ↓reduceIte]
    · simp only [readRegistration, readSize_of_size hsize, htoken, huid, hrule, hsubsystem,
        ok_bind, hzero, ↓reduceIte]
      rfl
  | some text =>
    have hne := length_terminated_ne_zero text
    replace hlabel : m.Holds (Layout.Registration.payload + 0) (terminated text) := hlabel
    replace hsize : (m.u32? Layout.Registration.labelSize).map UInt32.toNat =
      some (terminated text).length := hsize
    constructor
    · simp only [verifyRegistration, hlast, expectSize_of_size hsize, ok_bind, hne, ↓reduceIte,
        hlabel.requireString _ _ hmax]
    · simp only [readRegistration, readSize_of_size hsize, htoken, huid, hrule, hsubsystem,
        ok_bind, hne, ↓reduceIte, hlabel.readRegion _ _ hmax, Except.map, Function.comp_apply,
        untilZero_terminated]
      rfl

theorem decode_register {r : Registration} (h : register r = .ok m) :
    m.decode = .ok (.register { r with label := r.label.map untilZero }) := by
  obtain ⟨hlayout, hread⟩ := registration_of_compose h
  unfold register registration at h
  rw [decode_of_compose h hlayout, readContent, hread]
  rfl

theorem decode_unregister {filter : Filter} (h : unregister token filter = .ok m) :
    m.decode = .ok (.unregister ⟨token, filter, none⟩) := by
  obtain ⟨hlayout, hread⟩ := registration_of_compose h
  unfold unregister registration at h
  rw [decode_of_compose h hlayout, readContent, hread]
  rfl

theorem readSpan_of_size {op : Opcode} {start size : Field} {i n : Nat} {region : String}
    (hstart : (m.u32? start).map UInt32.toNat = some i)
    (hsize : (m.u32? size).map UInt32.toNat = some n) :
    m.readSpan op start size region = m.readRegion op Layout.Event.payload i n region := by
  rw [readSpan, readSize_of_size hstart, ok_bind, readSize_of_size hsize, ok_bind]

structure LaysOut (m : Message) (e : Event) : Prop where
  size : m.size ≤ maxSize
  token : m.readToken = .ok e.token
  pid : m.readU32 Layout.Event.pid = .ok e.pid
  uid : m.readU32 Layout.Event.uid = .ok e.uid
  ruleId : m.readU32 Layout.Event.ruleId = .ok e.ruleId
  subsystem : m.readU32 Layout.Event.subsystem = .ok e.subsystem
  priority : m.readU32 Layout.Event.priority = .ok e.priority
  checksumStart : (m.u32? Layout.Event.checksumStart).map UInt32.toNat = some 0
  checksumSize : (m.u32? Layout.Event.checksumSize).map UInt32.toNat = some e.checksum.length
  pathStart : (m.u32? Layout.Event.pathStart).map UInt32.toNat = some e.checksum.length
  pathSize : (m.u32? Layout.Event.pathSize).map UInt32.toNat = some (optionalText e.path).length
  detailStart : (m.u32? Layout.Event.detailStart).map UInt32.toNat =
    some (e.checksum.length + (optionalText e.path).length)
  detailSize : (m.u32? Layout.Event.detailSize).map UInt32.toNat = some e.detail.length
  lastField (op : Opcode) : m.requireField op Layout.Event.detailSize = .ok ()
  checksum : m.Holds (Layout.Event.payload + 0) e.checksum
  path : m.Holds (Layout.Event.payload + e.checksum.length) (optionalText e.path)
  detail : m.Holds (Layout.Event.payload + (e.checksum.length + (optionalText e.path).length))
    e.detail

theorem laysOut_of_compose {e : Event} (h : event e = .ok m) : m.LaysOut e := by
  unfold event at h
  have hmax := size_le_of_compose h
  have hfields := holds_of_compose h
  have hkey := hfields.afterToken.afterU32.left
  have hchecksumSpan := hfields.afterToken.afterU32.afterFilter.afterU32
  have hpathSpan := hchecksumSpan.afterSize.afterSize
  have hdetailSpan := hpathSpan.afterSize.afterSize
  have hpayload := hdetailSpan.afterSize.afterSize
  have hchecksum : m.Holds (Layout.Event.payload + 0) e.checksum := hpayload.left
  have hpath : m.Holds (Layout.Event.payload + e.checksum.length) (optionalText e.path) :=
    hpayload.right.left
  have hdetail : m.Holds (Layout.Event.payload +
      (e.checksum.length + (optionalText e.path).length)) e.detail :=
    hpayload.right.right.congr (Nat.add_assoc ..)
  have hdetailEnd := hdetail.fits
  exact {
    size := hmax
    token := hfields.left.readToken
    pid := hfields.afterToken.left.readU32
    uid := hkey.left.left.readU32
    ruleId := hkey.left.right.readU32
    subsystem := hkey.right.readU32
    priority := hfields.afterToken.afterU32.afterFilter.left.readU32
    checksumStart := hchecksumSpan.left.sizeField (Nat.zero_le _)
    checksumSize := hchecksumSpan.afterSize.left.sizeField (hchecksum.length_le hmax)
    pathStart := hpathSpan.left.sizeField (hchecksum.length_le hmax)
    pathSize := hpathSpan.afterSize.left.sizeField (hpath.length_le hmax)
    detailStart := hdetailSpan.left.sizeField (by omega)
    detailSize := hdetailSpan.afterSize.left.sizeField (hdetail.length_le hmax)
    lastField := fun _ => hdetailSpan.afterSize.left.requireSizeField _
    checksum := hchecksum
    path := hpath
    detail := hdetail }

namespace LaysOut

variable {e : Event}

theorem length_path (path : Option Bytes) : (optionalText path).length = 0 ↔ path = none := by
  -- Whether there is a path at all is told by its length alone.
  cases path with
  | none => exact ⟨fun _ => rfl, fun _ => rfl⟩
  | some text => exact ⟨fun h => absurd h (length_terminated_ne_zero text), nofun⟩

theorem requirePath (hm : m.LaysOut e) {text : Bytes} (hpath : e.path = some text) (op : Opcode) :
    m.requireString op Layout.Event.payload e.checksum.length (optionalText e.path).length "path" =
      .ok () := by
  have hholds := hm.path
  rw [hpath] at hholds ⊢
  exact hholds.requireString op "path" hm.size

theorem readPath (hm : m.LaysOut e) {text : Bytes} (hpath : e.path = some text) (op : Opcode) :
    m.readRegion op Layout.Event.payload e.checksum.length (optionalText e.path).length "path" =
      .ok (terminated text) := by
  have hholds := hm.path
  rw [hpath] at hholds ⊢
  exact hholds.readRegion op "path" hm.size

theorem verifyEvent (hm : m.LaysOut e) (op : Opcode) : m.verifyEvent op = .ok () := by
  simp only [Message.verifyEvent, hm.lastField, expectSize_of_size hm.checksumStart,
    expectSize_of_size hm.checksumSize, hm.checksum.requireRegion _ _ hm.size,
    expectSize_of_size hm.pathStart, expectSize_of_size hm.pathSize,
    expectSize_of_size hm.detailStart, expectSize_of_size hm.detailSize,
    hm.detail.requireRegion _ _ hm.size, ok_bind, length_path]
  cases hpath : e.path with
  | none => rfl
  | some text =>
    rw [← hpath, hm.requirePath hpath]
    split <;> rfl

theorem readEvent (hm : m.LaysOut e) (op : Opcode) : m.readEvent op =
    .ok { e with needsVerdict := op == .ask, path := e.path.map untilZero } := by
  simp only [Message.readEvent, readSize_of_size hm.pathSize, hm.token, hm.pid, hm.uid,
    hm.ruleId, hm.subsystem, hm.priority, readSpan_of_size hm.pathStart hm.pathSize,
    readSpan_of_size hm.checksumStart hm.checksumSize, hm.checksum.readRegion _ _ hm.size,
    readSpan_of_size hm.detailStart hm.detailSize, hm.detail.readRegion _ _ hm.size, ok_bind,
    length_path]
  cases hpath : e.path with
  | none => rfl
  | some text =>
    rw [← hpath, hm.readPath hpath, hpath, if_neg (Option.some_ne_none text)]
    simp only [Except.map, Function.comp_apply, untilZero_terminated, ok_bind]
    rfl

end LaysOut

theorem decode_event {e : Event} (h : event e = .ok m) :
    m.decode = .ok (.event { e with path := e.path.map untilZero }) := by
  have hm := laysOut_of_compose h
  have hlayout := hm.verifyEvent (if e.needsVerdict then .ask else .notify)
  have hread := hm.readEvent (if e.needsVerdict then .ask else .notify)
  have hverify : m.verifyLayout (if e.needsVerdict then .ask else .notify) = .ok () := by
    cases hkind : e.needsVerdict <;> simpa [hkind, verifyLayout] using hlayout
  unfold event at h
  rw [decode_of_compose h hverify]
  cases hkind : e.needsVerdict <;> simp [hkind, readContent] at hread ⊢ <;> rw [hread] <;> rfl

theorem decode_csumRequest {operation uid : UInt32} {keyId path : Bytes}
    (h : csumRequest token operation uid keyId path = .ok m) :
    m.decode = .ok (.csumRequest token operation uid keyId (untilZero path)) := by
  unfold csumRequest at h
  have hmax := size_le_of_compose h
  have hfields := holds_of_compose h
  have htoken : m.readToken = .ok token := hfields.left.readToken
  have hoperation : m.readU32 Layout.CsumRequest.operation = .ok operation :=
    hfields.afterToken.left.readU32
  have huid : m.readU32 Layout.CsumRequest.uid = .ok uid := hfields.afterToken.afterU32.left.readU32
  have hsizes := hfields.afterToken.afterU32.afterU32
  have hkeyId : m.Holds (Layout.CsumRequest.payload + 0) keyId := hsizes.afterSize.afterSize.left
  have hpath : m.Holds (Layout.CsumRequest.payload + keyId.length) (terminated path) :=
    hsizes.afterSize.afterSize.right
  have hlast : m.requireField .csumRequest Layout.CsumRequest.pathSize = .ok () :=
    hsizes.afterSize.left.requireSizeField _
  have hkeyIdSize : (m.u32? Layout.CsumRequest.keyIdSize).map UInt32.toNat = some keyId.length :=
    hsizes.left.sizeField (hkeyId.length_le hmax)
  have hpathSize :
      (m.u32? Layout.CsumRequest.pathSize).map UInt32.toNat = some (terminated path).length :=
    hsizes.afterSize.left.sizeField (hpath.length_le hmax)
  have hlayout : m.verifyLayout .csumRequest = .ok () := by
    simp only [verifyLayout, verifyCsumRequest, hlast, expectSize_of_size hkeyIdSize,
      expectSize_of_size hpathSize, hkeyId.requireRegion _ _ hmax, hpath.requireString _ _ hmax,
      ok_bind]
  rw [decode_of_compose h hlayout]
  simp only [readContent, readCsumRequest, readSize_of_size hkeyIdSize,
    readSize_of_size hpathSize, hpath.readRegion _ _ hmax, htoken, hoperation, huid,
    hkeyId.readRegion _ _ hmax, ok_bind, untilZero_terminated]
  rfl

end Regions

section Lists

variable {token : UInt64}

theorem length_mapM {α : Type} {write : α → Except Fault Bytes}
    (hpos : ∀ r bytes, write r = .ok bytes → 1 ≤ bytes.length) {records : List α}
    {encoded : List Bytes} (h : records.mapM write = .ok encoded) :
    records.length ≤ encoded.flatten.length := by
  induction records generalizing encoded with
  | nil => exact Nat.zero_le _
  | cons r records ih =>
    obtain ⟨bytes, rest, hbytes, hrest, rfl⟩ := mapM_cons_eq_ok h
    have hfirst := hpos r bytes hbytes
    have hothers := ih hrest
    rw [List.length_cons, List.flatten_cons, List.length_append]
    omega

theorem stringList_eq_ok {flags : UInt32} {strings : List Bytes}
    (h : stringList token flags strings = .ok m) : (∀ s ∈ strings, 0 ∉ s) ∧
      compose .stringList (u64Bytes token ++ (u32Bytes flags ++ strings.flatMap terminated)) =
        .ok m := by
  unfold stringList at h
  by_cases hstrings : ∀ s ∈ strings, 0 ∉ s
  · rw [require_of hstrings, ok_bind] at h
    exact ⟨hstrings, h⟩
  · simp [require, hstrings, bind, Except.bind] at h

theorem decode_stringList {flags : UInt32} {strings : List Bytes}
    (h : stringList token flags strings = .ok m) :
    m.decode = .ok (.stringList token flags strings) := by
  obtain ⟨hstrings, hcompose⟩ := stringList_eq_ok h
  have hfields := holds_of_compose hcompose
  have htoken : m.readToken = .ok token := hfields.left.readToken
  have hflags : m.readU32 Layout.StringList.flags = .ok flags := hfields.afterToken.left.readU32
  have hlast : m.requireField .stringList Layout.StringList.flags = .ok () :=
    hfields.afterToken.left.requireField _
  have htail : m.tail? Layout.StringList.payload = some (strings.flatMap terminated) := by
    have hpayload : m.Holds Layout.StringList.payload (strings.flatMap terminated) :=
      hfields.afterToken.afterU32
    have hsize := size_of_compose hcompose
    have hbody : m.bodySize - Layout.StringList.payload = (strings.flatMap terminated).length := by
      simp [bodySize, hsize, headerSize, Layout.StringList.payload]
      omega
    have hstart : Layout.StringList.payload ≤ m.bodySize := by
      simp [bodySize, hsize, headerSize, Layout.StringList.payload]
      omega
    rw [tail?, if_pos hstart, hbody, hpayload.slice_eq]
  have hlayout : m.verifyLayout .stringList = .ok () := by
    simp only [verifyLayout, verifyStringList, hlast, htail, expect_some, ok_bind,
      require_of (getLast?_terminated strings)]
  rw [decode_of_compose hcompose hlayout]
  simp only [readContent, readStringList, htail, htoken, hflags, expect_some, ok_bind,
    splitStrings_terminated hstrings]
  rfl

theorem csumMultiRequest_eq_ok {operation uid : UInt32} {keyId : Bytes}
    {records : List RequestRecord}
    (h : csumMultiRequest token operation uid keyId records = .ok m) :
    ∃ encoded, records.mapM requestRecord = .ok encoded ∧
      compose .csumMultiRequest (u64Bytes token ++ (u32Bytes operation ++ (u32Bytes uid ++
        (sizeBytes keyId.length ++ (sizeBytes records.length ++ (keyId ++ encoded.flatten)))))) =
        .ok m := by
  unfold csumMultiRequest at h
  cases hencoded : records.mapM requestRecord with
  | error fault => simp [hencoded, bind, Except.bind] at h
  | ok encoded =>
    rw [hencoded, ok_bind] at h
    exact ⟨encoded, rfl, h⟩

theorem decode_csumMultiRequest {operation uid : UInt32} {keyId : Bytes}
    {records : List RequestRecord}
    (h : csumMultiRequest token operation uid keyId records = .ok m) :
    m.decode =
      .ok (.csumMultiRequest token operation uid keyId (records.map RequestRecord.cut)) := by
  obtain ⟨encoded, hencoded, hcompose⟩ := csumMultiRequest_eq_ok h
  have hmax := size_le_of_compose hcompose
  have hfields := holds_of_compose hcompose
  have htoken : m.readToken = .ok token := hfields.left.readToken
  have hoperation : m.readU32 Layout.CsumMultiRequest.operation = .ok operation :=
    hfields.afterToken.left.readU32
  have huid : m.readU32 Layout.CsumMultiRequest.uid = .ok uid :=
    hfields.afterToken.afterU32.left.readU32
  have hsizes := hfields.afterToken.afterU32.afterU32
  have hkeyId : m.Holds (Layout.CsumMultiRequest.payload + 0) keyId :=
    hsizes.afterSize.afterSize.left
  have hrecords : m.Holds (Layout.CsumMultiRequest.payload + keyId.length) encoded.flatten :=
    hsizes.afterSize.afterSize.right
  have hcount : records.length ≤ maxSize :=
    Nat.le_trans (length_mapM one_le_length_requestRecord hencoded) (hrecords.length_le hmax)
  have hlast : m.requireField .csumMultiRequest Layout.CsumMultiRequest.count = .ok () :=
    hsizes.afterSize.left.requireSizeField _
  have hkeyIdSize :
      (m.u32? Layout.CsumMultiRequest.keyIdSize).map UInt32.toNat = some keyId.length :=
    hsizes.left.sizeField (hkeyId.length_le hmax)
  have hcountField :
      (m.u32? Layout.CsumMultiRequest.count).map UInt32.toNat = some records.length :=
    hsizes.afterSize.left.sizeField hcount
  obtain ⟨hverify, hread⟩ := requestRecords_of_holds hmax hencoded hrecords 0
  have hlayout : m.verifyLayout .csumMultiRequest = .ok () := by
    simp only [verifyLayout, verifyCsumMultiRequest, hlast, expectSize_of_size hkeyIdSize,
      expectSize_of_size hcountField, hkeyId.requireRegion _ _ hmax, hverify, ok_bind]
  rw [decode_of_compose hcompose hlayout]
  simp only [readContent, readCsumMultiRequest, readSize_of_size hkeyIdSize,
    readSize_of_size hcountField, hread, htoken, hoperation, huid, hkeyId.readRegion _ _ hmax,
    ok_bind]
  rfl

theorem csumMultiReply_eq_ok {operation : UInt32} {error : Int32} {records : List ReplyRecord}
    (h : csumMultiReply token operation error records = .ok m) :
    ∃ encoded, records.mapM replyRecord = .ok encoded ∧
      compose .csumMultiReply (u64Bytes token ++ (u32Bytes operation ++ (i32Bytes error ++
        (sizeBytes records.length ++ encoded.flatten)))) = .ok m := by
  unfold csumMultiReply at h
  cases hencoded : records.mapM replyRecord with
  | error fault => simp [hencoded, bind, Except.bind] at h
  | ok encoded =>
    rw [hencoded, ok_bind] at h
    exact ⟨encoded, rfl, h⟩

theorem decode_csumMultiReply {operation : UInt32} {error : Int32} {records : List ReplyRecord}
    (h : csumMultiReply token operation error records = .ok m) :
    m.decode = .ok (.csumMultiReply token operation error records) := by
  obtain ⟨encoded, hencoded, hcompose⟩ := csumMultiReply_eq_ok h
  have hmax := size_le_of_compose hcompose
  have hfields := holds_of_compose hcompose
  have htoken : m.readToken = .ok token := hfields.left.readToken
  have hoperation : m.readU32 Layout.CsumMultiReply.operation = .ok operation :=
    hfields.afterToken.left.readU32
  have herror : m.readI32 Layout.CsumMultiReply.error = .ok error :=
    hfields.afterToken.afterU32.left.readI32
  have hcountOn := hfields.afterToken.afterU32.afterI32
  have hrecords : m.Holds (Layout.CsumMultiReply.payload + 0) encoded.flatten :=
    hcountOn.afterSize
  have hcount : records.length ≤ maxSize :=
    Nat.le_trans (length_mapM one_le_length_replyRecord hencoded) (hrecords.length_le hmax)
  have hlast : m.requireField .csumMultiReply Layout.CsumMultiReply.count = .ok () :=
    hcountOn.left.requireSizeField _
  have hcountField :
      (m.u32? Layout.CsumMultiReply.count).map UInt32.toNat = some records.length :=
    hcountOn.left.sizeField hcount
  obtain ⟨hverify, hread⟩ := replyRecords_of_holds hmax hencoded hrecords 0
  have hlayout : m.verifyLayout .csumMultiReply = .ok () := by
    simp only [verifyLayout, verifyCsumMultiReply, hlast, expectSize_of_size hcountField, hverify,
      ok_bind]
  rw [decode_of_compose hcompose hlayout]
  simp only [readContent, readCsumMultiReply, readSize_of_size hcountField, hread, htoken,
    hoperation, herror, ok_bind]
  rfl

end Lists

end Message

namespace Draft

variable {d : Draft} {m : Message}

theorem sealed_of_write (h : d.write = .ok m) : m.Sealed := by
  cases d with
  | stringList token flags strings =>
    exact Message.sealed_of_compose (Message.stringList_eq_ok h).2
  | csumMultiRequest token operation uid keyId records =>
    obtain ⟨encoded, -, hcompose⟩ := Message.csumMultiRequest_eq_ok h
    exact Message.sealed_of_compose hcompose
  | csumMultiReply token operation error records =>
    obtain ⟨encoded, -, hcompose⟩ := Message.csumMultiReply_eq_ok h
    exact Message.sealed_of_compose hcompose
  | _ =>
    simp only [write, Message.hello, Message.versel, Message.auth, Message.authChallenge,
      Message.reply, Message.close, Message.register, Message.unregister, Message.registration,
      Message.event, Message.answer, Message.outcome, Message.status, Message.csumRequest] at h
    exact Message.sealed_of_compose h

theorem decode_of_write (h : d.write = .ok m) : m.decode = .ok d.content.cut := by
  cases d with
  | hello version minVersion => exact Message.decode_hello h
  | versel token version => exact Message.decode_versel h
  | auth token authType => exact Message.decode_auth h
  | authChallenge token authType challenge keyId => exact Message.decode_authChallenge h
  | reply token answered error => exact Message.decode_reply h
  | close token => exact Message.decode_close h
  | register r => exact Message.decode_register h
  | unregister token filter => exact Message.decode_unregister h
  | event e => exact Message.decode_event h
  | answer token verdict delegate => exact Message.decode_answer h
  | outcome token you uid verdict => exact Message.decode_outcome h
  | status token key value => exact Message.decode_status h
  | csumRequest token operation uid keyId path => exact Message.decode_csumRequest h
  | stringList token flags strings => exact Message.decode_stringList h
  | csumMultiRequest token operation uid keyId records => exact Message.decode_csumMultiRequest h
  | csumMultiReply token operation error records => exact Message.decode_csumMultiReply h

/-- Whatever is written passes the check and reads as it was written, its labels and paths cut at
their first zero byte; when none of them holds a zero byte, it reads exactly as it was written. -/
theorem roundTrip (h : d.write = .ok m) :
    m.check = .ok () ∧ m.decode = .ok d.content.cut ∧
      ((∀ t ∈ d.content.texts, 0 ∉ t) → m.decode = .ok d.content) := by
  have hdecode := decode_of_write h
  have hsealed := sealed_of_write h
  refine ⟨?_, hdecode, ?_⟩
  · rw [Message.check, require_of hsealed, ok_bind]
    exact Message.verify_of_decode hdecode
  · intro htexts
    rw [hdecode, Content.cut_of_texts htexts]

/-- Two records, the path of the second cut short. -/
theorem roundTrip_two_records : ∃ m,
    (csumMultiRequest 7 1 1000 [5] [⟨0, [1, 2], [47, 97]⟩, ⟨1, [], [98, 0, 99]⟩]).write = .ok m ∧
      m.check = .ok () ∧
      m.decode =
        .ok (.csumMultiRequest 7 1 1000 [5] [⟨0, [1, 2], [47, 97]⟩, ⟨1, [], [98]⟩]) := by
  obtain ⟨m, hm⟩ : ∃ m,
      (csumMultiRequest 7 1 1000 [5] [⟨0, [1, 2], [47, 97]⟩, ⟨1, [], [98, 0, 99]⟩]).write =
        .ok m := by
    have hrecords :
        [(⟨0, [1, 2], [47, 97]⟩ : RequestRecord), ⟨1, [], [98, 0, 99]⟩].mapM
          Message.requestRecord = .ok [_, _] := rfl
    rw [write, Message.csumMultiRequest, hrecords, ok_bind]
    apply Message.exists_compose
    decide
  obtain ⟨hcheck, hdecode, -⟩ := roundTrip hm
  exact ⟨m, hm, hcheck, hdecode⟩

end Draft

end Arbiter
