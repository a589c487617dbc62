import Arbiter.Message.Content
import Arbiter.Message.Validity

/-!
Reading a message. The form is verified first; every later read still states its own failure, though
none of them can arise from a verified message.
-/

namespace Arbiter.Message

def readU32 (m : Message) (f : Field) : Except Fault UInt32 := expect (m.u32? f) (.tooShort m.size)

def readI32 (m : Message) (f : Field) : Except Fault Int32 := expect (m.i32? f) (.tooShort m.size)

def readU64 (m : Message) (f : Field) : Except Fault UInt64 := expect (m.u64? f) (.tooShort m.size)

def readToken (m : Message) : Except Fault UInt64 := m.readU64 Layout.token

def readSize (m : Message) (f : Field) : Except Fault Nat := (m.readU32 f).map UInt32.toNat

def readVerdict (m : Message) (op : Opcode) (f : Field) : Except Fault Verdict := do
  let code ← m.readI32 f
  expect (Verdict.ofCode? code) (.negativeVerdict op code)

def readRegion (m : Message) (op : Opcode) (base start count : Nat) (region : String) :
    Except Fault Bytes :=
  expect (m.region? base start count) (.outOfBounds op region)

def untilZero (bytes : Bytes) : Bytes := bytes.takeWhile (· != 0)

/-- The strings of a list, each ended by a zero byte. -/
def splitStrings (payload : Bytes) : List Bytes :=
  if payload.isEmpty then [] else payload.dropLast.splitOn 0

def readAuthChallenge (m : Message) : Except Fault Content := do
  let op := Opcode.authChallenge
  let base := Layout.AuthChallenge.payload
  let challengeSize ← m.readSize Layout.AuthChallenge.challengeSize
  let keyIdSize ← m.readSize Layout.AuthChallenge.keyIdSize
  let token ← m.readToken
  let authType ← m.readU32 Layout.AuthChallenge.authType
  let challenge ← m.readRegion op base 0 challengeSize "challenge"
  let keyId ← m.readRegion op base challengeSize keyIdSize "key id"
  return .authChallenge token authType challenge keyId

def readRegistration (m : Message) (op : Opcode) : Except Fault Registration := do
  let labelSize ← m.readSize Layout.Registration.labelSize
  let label ←
    if labelSize = 0 then .ok none
    else (m.readRegion op Layout.Registration.payload 0 labelSize "label").map (some ∘ untilZero)
  let token ← m.readToken
  let uid ← m.readU32 Layout.Registration.uid
  let ruleId ← m.readU32 Layout.Registration.ruleId
  let subsystem ← m.readU32 Layout.Registration.subsystem
  return ⟨token, ⟨uid, ruleId, subsystem⟩, label⟩

def readSpan (m : Message) (op : Opcode) (start size : Field) (region : String) :
    Except Fault Bytes := do
  let start ← m.readSize start
  let size ← m.readSize size
  m.readRegion op Layout.Event.payload start size region

/-- The start of an empty path is not looked at. -/
def readEvent (m : Message) (op : Opcode) : Except Fault Event := do
  let pathSize ← m.readSize Layout.Event.pathSize
  let path ←
    if pathSize = 0 then .ok none
    else (m.readSpan op Layout.Event.pathStart Layout.Event.pathSize "path").map (some ∘ untilZero)
  let token ← m.readToken
  let pid ← m.readU32 Layout.Event.pid
  let uid ← m.readU32 Layout.Event.uid
  let ruleId ← m.readU32 Layout.Event.ruleId
  let subsystem ← m.readU32 Layout.Event.subsystem
  let priority ← m.readU32 Layout.Event.priority
  let checksum ← m.readSpan op Layout.Event.checksumStart Layout.Event.checksumSize "checksum"
  let detail ← m.readSpan op Layout.Event.detailStart Layout.Event.detailSize "event"
  return ⟨op == .ask, token, pid, uid, ruleId, subsystem, priority, checksum, path, detail⟩

def readAnswer (m : Message) : Except Fault Content := do
  let token ← m.readToken
  let verdict ← m.readVerdict .answer Layout.Answer.verdict
  let delegate ← m.readU32 Layout.Answer.delegate
  return .answer token verdict (delegate != 0)

def readOutcome (m : Message) (op : Opcode) : Except Fault Content := do
  let token ← m.readToken
  let uid ← m.readU32 Layout.Outcome.uid
  let verdict ← m.readVerdict op Layout.Outcome.verdict
  return .outcome token (op == .resultYou) uid verdict

def readCsumRequest (m : Message) : Except Fault Content := do
  let op := Opcode.csumRequest
  let base := Layout.CsumRequest.payload
  let keyIdSize ← m.readSize Layout.CsumRequest.keyIdSize
  let pathSize ← m.readSize Layout.CsumRequest.pathSize
  let path ← m.readRegion op base keyIdSize pathSize "path"
  let token ← m.readToken
  let operation ← m.readU32 Layout.CsumRequest.operation
  let uid ← m.readU32 Layout.CsumRequest.uid
  let keyId ← m.readRegion op base 0 keyIdSize "key id"
  return .csumRequest token operation uid keyId (untilZero path)

def readStringList (m : Message) : Except Fault Content := do
  let payload ← expect (m.tail? Layout.StringList.payload) (.outOfBounds .stringList "strings")
  let token ← m.readToken
  let flags ← m.readU32 Layout.StringList.flags
  return .stringList token flags (splitStrings payload)

def readRequestRecords (m : Message) : (count index cursor : Nat) → Except Fault (List RequestRecord)
  | 0, _, _ => .ok []
  | count + 1, index, cursor => do
    let op := Opcode.csumMultiRequest
    let base := Layout.CsumMultiRequest.payload
    let header := Layout.RequestRecord.payload
    let bad := Fault.badRecord op index
    let size ← expect (m.u32At? (base + cursor) Layout.RequestRecord.size) bad
    let checksumSize ← expect (m.u32At? (base + cursor) Layout.RequestRecord.checksumSize) bad
    let pathSize ← expect (m.u32At? (base + cursor) Layout.RequestRecord.pathSize) bad
    let number ← expect (m.u32At? (base + cursor) Layout.RequestRecord.index) bad
    let checksum ← m.readRegion op base (cursor + header) checksumSize.toNat "record checksum"
    let path ← m.readRegion op base (cursor + header + checksumSize.toNat) pathSize.toNat
      "record path"
    let records ← readRequestRecords m count (index + 1) (cursor + size.toNat)
    return ⟨number, checksum, untilZero path⟩ :: records

def readCsumMultiRequest (m : Message) : Except Fault Content := do
  let keyIdSize ← m.readSize Layout.CsumMultiRequest.keyIdSize
  let count ← m.readSize Layout.CsumMultiRequest.count
  let records ← m.readRequestRecords count 0 keyIdSize
  let token ← m.readToken
  let operation ← m.readU32 Layout.CsumMultiRequest.operation
  let uid ← m.readU32 Layout.CsumMultiRequest.uid
  let keyId ← m.readRegion .csumMultiRequest Layout.CsumMultiRequest.payload 0 keyIdSize "key id"
  return .csumMultiRequest token operation uid keyId records

def readReplyRecords (m : Message) : (count index cursor : Nat) → Except Fault (List ReplyRecord)
  | 0, _, _ => .ok []
  | count + 1, index, cursor => do
    let op := Opcode.csumMultiReply
    let base := Layout.CsumMultiReply.payload
    let header := Layout.ReplyRecord.payload
    let bad := Fault.badRecord op index
    let size ← expect (m.u32At? (base + cursor) Layout.ReplyRecord.size) bad
    let checksumSize ← expect (m.u32At? (base + cursor) Layout.ReplyRecord.checksumSize) bad
    let number ← expect (m.u32At? (base + cursor) Layout.ReplyRecord.index) bad
    let error ← expect (m.u32At? (base + cursor) Layout.ReplyRecord.error) bad
    let checksum ← m.readRegion op base (cursor + header) checksumSize.toNat "record checksum"
    let records ← readReplyRecords m count (index + 1) (cursor + size.toNat)
    return ⟨number, error.toInt32, checksum⟩ :: records

def readCsumMultiReply (m : Message) : Except Fault Content := do
  let count ← m.readSize Layout.CsumMultiReply.count
  let records ← m.readReplyRecords count 0 0
  let token ← m.readToken
  let operation ← m.readU32 Layout.CsumMultiReply.operation
  let error ← m.readI32 Layout.CsumMultiReply.error
  return .csumMultiReply token operation error records

def readReply (m : Message) : Except Fault Content := do
  let token ← m.readToken
  let opcode ← m.readU32 Layout.Reply.opcode
  let error ← m.readI32 Layout.Reply.error
  return .reply token opcode error

def readStatus (m : Message) : Except Fault Content := do
  let token ← m.readToken
  let key ← m.readU32 Layout.Status.key
  let value ← m.readU32 Layout.Status.value
  return .status token key value

def readHello (m : Message) : Except Fault Content := do
  let version ← m.readU32 Layout.Hello.version
  let minVersion ← m.readU32 Layout.Hello.minVersion
  return .hello version minVersion

def readVersel (m : Message) : Except Fault Content := do
  let token ← m.readToken
  let version ← m.readU32 Layout.Versel.version
  return .versel token version

def readAuth (m : Message) : Except Fault Content := do
  let token ← m.readToken
  let authType ← m.readU32 Layout.Auth.authType
  return .auth token authType

def readContent (m : Message) : Opcode → Except Fault Content
  | .hello => m.readHello
  | .versel => m.readVersel
  | .auth => m.readAuth
  | .authChallenge => m.readAuthChallenge
  | .reply => m.readReply
  | .close => m.readToken.map .close
  | .register => (m.readRegistration .register).map .register
  | .unregister => (m.readRegistration .unregister).map .unregister
  | .notify => (m.readEvent .notify).map .event
  | .ask => (m.readEvent .ask).map .event
  | .answer => m.readAnswer
  | .resultYou => m.readOutcome .resultYou
  | .resultOther => m.readOutcome .resultOther
  | .status => m.readStatus
  | .csumRequest => m.readCsumRequest
  | .stringList => m.readStringList
  | .csumMultiRequest => m.readCsumMultiRequest
  | .csumMultiReply => m.readCsumMultiReply
  | .retired kind => .ok (.retired kind)

def decode (m : Message) : Except Fault Content := do
  m.verify
  let code ← expect m.opcode? (.tooShort m.size)
  let op ← expect (Opcode.ofCode? code) (.unknownOpcode code)
  m.readContent op

/-- The token at its usual place, without a look at the rest of the message. -/
def token? (m : Message) : Option UInt64 := do
  let code ← m.opcode?
  match Opcode.ofCode? code with
  | some .hello => none
  | some (.retired _) => none
  | _ => m.u64? Layout.token

end Arbiter.Message
