import Arbiter.Require
import Arbiter.Message.Layout

/-!
When a message has the form its opcode calls for. The first violation found is the answer. Fields,
regions and strings are judged by the bytes before the trailer alone; the trailer itself is judged
only by `check`.
-/

namespace Arbiter.Message

def requireExact (m : Message) (op : Opcode) (bodyEnd : Nat) : Except Fault Unit :=
  require (m.size = bodyEnd + trailerSize) (.badLength op (bodyEnd + trailerSize) m.size)

def shortOf (m : Message) (op : Opcode) (f : Field) : Fault :=
  .badLength op (f.offset + f.size + trailerSize) m.size

def requireField (m : Message) (op : Opcode) (last : Field) : Except Fault Unit :=
  require (m.HasField last) (m.shortOf op last)

def expectSize (m : Message) (op : Opcode) (f : Field) : Except Fault Nat :=
  expect ((m.u32? f).map UInt32.toNat) (m.shortOf op f)

def requireVerdict (m : Message) (op : Opcode) (f : Field) : Except Fault Unit := do
  let code ← expect (m.i32? f) (.tooShort m.size)
  require (0 ≤ code) (.negativeVerdict op code)

def requireRegion (m : Message) (op : Opcode) (base start count : Nat) (region : String) :
    Except Fault Unit :=
  require (m.HasRegion base start count) (.outOfBounds op region)

/-- A string ends at its first zero byte, which must be inside its region. -/
def requireString (m : Message) (op : Opcode) (base start count : Nat) (region : String) :
    Except Fault Unit := do
  let bytes ← expect (m.region? base start count) (.outOfBounds op region)
  require (0 ∈ bytes) (.unterminated op region)

def verifyAuthChallenge (m : Message) : Except Fault Unit := do
  let op := Opcode.authChallenge
  m.requireField op Layout.AuthChallenge.keyIdSize
  let challenge ← m.expectSize op Layout.AuthChallenge.challengeSize
  let keyId ← m.expectSize op Layout.AuthChallenge.keyIdSize
  m.requireRegion op Layout.AuthChallenge.payload 0 challenge "challenge"
  m.requireRegion op Layout.AuthChallenge.payload challenge keyId "key id"

def verifyRegistration (m : Message) (op : Opcode) : Except Fault Unit := do
  m.requireField op Layout.Registration.labelSize
  let label ← m.expectSize op Layout.Registration.labelSize
  if label = 0 then .ok ()
  else m.requireString op Layout.Registration.payload 0 label "label"

def verifyEvent (m : Message) (op : Opcode) : Except Fault Unit := do
  let base := Layout.Event.payload
  m.requireField op Layout.Event.detailSize
  let checksumStart ← m.expectSize op Layout.Event.checksumStart
  let checksumSize ← m.expectSize op Layout.Event.checksumSize
  m.requireRegion op base checksumStart checksumSize "checksum"
  let pathStart ← m.expectSize op Layout.Event.pathStart
  let pathSize ← m.expectSize op Layout.Event.pathSize
  if pathSize = 0 then .ok () else m.requireString op base pathStart pathSize "path"
  let detailStart ← m.expectSize op Layout.Event.detailStart
  let detailSize ← m.expectSize op Layout.Event.detailSize
  m.requireRegion op base detailStart detailSize "event"

def verifyCsumRequest (m : Message) : Except Fault Unit := do
  let op := Opcode.csumRequest
  m.requireField op Layout.CsumRequest.pathSize
  let keyId ← m.expectSize op Layout.CsumRequest.keyIdSize
  let path ← m.expectSize op Layout.CsumRequest.pathSize
  m.requireRegion op Layout.CsumRequest.payload 0 keyId "key id"
  m.requireString op Layout.CsumRequest.payload keyId path "path"

def verifyStringList (m : Message) : Except Fault Unit := do
  let op := Opcode.stringList
  m.requireField op Layout.StringList.flags
  let payload ← expect (m.tail? Layout.StringList.payload) (.outOfBounds op "strings")
  require (payload.getLast?.getD 0 = 0) (.unterminated op "strings")

/-- The next `count` records, the first of which is number `index` and starts at `cursor`. -/
def verifyRequestRecords (m : Message) : (count index cursor : Nat) → Except Fault Unit
  | 0, _, _ => .ok ()
  | count + 1, index, cursor => do
    let op := Opcode.csumMultiRequest
    let base := Layout.CsumMultiRequest.payload
    let header := Layout.RequestRecord.payload
    let bad := Fault.badRecord op index
    require (m.HasRegion base cursor header) bad
    let size ← expect (m.u32At? (base + cursor) Layout.RequestRecord.size) bad
    let checksum ← expect (m.u32At? (base + cursor) Layout.RequestRecord.checksumSize) bad
    let path ← expect (m.u32At? (base + cursor) Layout.RequestRecord.pathSize) bad
    require (header + checksum.toNat + path.toNat = size.toNat) bad
    m.requireRegion op base (cursor + header) checksum.toNat "record checksum"
    m.requireString op base (cursor + header + checksum.toNat) path.toNat "record path"
    verifyRequestRecords m count (index + 1) (cursor + size.toNat)

def verifyCsumMultiRequest (m : Message) : Except Fault Unit := do
  let op := Opcode.csumMultiRequest
  m.requireField op Layout.CsumMultiRequest.count
  let keyId ← m.expectSize op Layout.CsumMultiRequest.keyIdSize
  let count ← m.expectSize op Layout.CsumMultiRequest.count
  m.requireRegion op Layout.CsumMultiRequest.payload 0 keyId "key id"
  m.verifyRequestRecords count 0 keyId

def verifyReplyRecords (m : Message) : (count index cursor : Nat) → Except Fault Unit
  | 0, _, _ => .ok ()
  | count + 1, index, cursor => do
    let op := Opcode.csumMultiReply
    let base := Layout.CsumMultiReply.payload
    let header := Layout.ReplyRecord.payload
    let bad := Fault.badRecord op index
    require (m.HasRegion base cursor header) bad
    let size ← expect (m.u32At? (base + cursor) Layout.ReplyRecord.size) bad
    let checksum ← expect (m.u32At? (base + cursor) Layout.ReplyRecord.checksumSize) bad
    require (header + checksum.toNat = size.toNat) bad
    m.requireRegion op base (cursor + header) checksum.toNat "record checksum"
    verifyReplyRecords m count (index + 1) (cursor + size.toNat)

def verifyCsumMultiReply (m : Message) : Except Fault Unit := do
  let op := Opcode.csumMultiReply
  m.requireField op Layout.CsumMultiReply.count
  let count ← m.expectSize op Layout.CsumMultiReply.count
  m.verifyReplyRecords count 0 0

def verifyLayout (m : Message) : Opcode → Except Fault Unit
  | .hello => m.requireExact .hello Layout.Hello.bodyEnd
  | .versel => m.requireExact .versel Layout.Versel.bodyEnd
  | .auth => m.requireExact .auth Layout.Auth.bodyEnd
  | .authChallenge => m.verifyAuthChallenge
  | .reply => m.requireExact .reply Layout.Reply.bodyEnd
  | .close => m.requireExact .close Layout.Close.bodyEnd
  | .register => m.verifyRegistration .register
  | .unregister => m.verifyRegistration .unregister
  | .notify => m.verifyEvent .notify
  | .ask => m.verifyEvent .ask
  | .answer => do
    m.requireExact .answer Layout.Answer.bodyEnd
    m.requireVerdict .answer Layout.Answer.verdict
  | .resultYou => do
    m.requireExact .resultYou Layout.Outcome.bodyEnd
    m.requireVerdict .resultYou Layout.Outcome.verdict
  | .resultOther => do
    m.requireExact .resultOther Layout.Outcome.bodyEnd
    m.requireVerdict .resultOther Layout.Outcome.verdict
  | .status => m.requireExact .status Layout.Status.bodyEnd
  | .csumRequest => m.verifyCsumRequest
  | .stringList => m.verifyStringList
  | .csumMultiRequest => m.verifyCsumMultiRequest
  | .csumMultiReply => m.verifyCsumMultiReply
  | .retired _ => .ok ()

def verify (m : Message) : Except Fault Unit := do
  require (minSize ≤ m.size) (.tooShort m.size)
  require (m.size ≤ maxSize) (.tooLarge m.size)
  let declared ← expect m.declaredSize? (.tooShort m.size)
  require (declared.toNat = m.size) (.lengthMismatch declared m.size)
  let code ← expect m.opcode? (.tooShort m.size)
  let op ← expect (Opcode.ofCode? code) (.unknownOpcode code)
  m.verifyLayout op

/-- The trailer first, then the form. -/
def check (m : Message) : Except Fault Unit := do
  require m.Sealed .badChecksum
  m.verify

end Arbiter.Message
