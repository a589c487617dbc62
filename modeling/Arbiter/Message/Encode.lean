import Arbiter.Require
import Arbiter.Message.Content
import Arbiter.Message.Layout

/-!
Writing messages. Each writer lists the fields and regions of one kind in order; `compose` puts the
header before them and the trailer behind, and refuses what would exceed the largest message.
-/

namespace Arbiter.Message

def compose (op : Opcode) (fields : Bytes) : Except Fault Message :=
  let body := headerSize + fields.length
  if body + trailerSize ≤ maxSize then
    let header := BigEndian.encode 4 (body + trailerSize) ++ u32Bytes op.code
    .ok (sealed (ofBytes (header ++ fields ++ List.replicate trailerSize 0)))
  else .error (.tooLarge body)

def sizeBytes (n : Nat) : Bytes := BigEndian.encode 4 n

def terminated (text : Bytes) : Bytes := text ++ [0]

def hello (version minVersion : UInt32) : Except Fault Message :=
  compose .hello (u32Bytes version ++ u32Bytes minVersion)

def versel (token : UInt64) (version : UInt32) : Except Fault Message :=
  compose .versel (u64Bytes token ++ u32Bytes version)

def auth (token : UInt64) (authType : UInt32) : Except Fault Message :=
  compose .auth (u64Bytes token ++ u32Bytes authType)

def authChallenge (token : UInt64) (authType : UInt32) (challenge keyId : Bytes) :
    Except Fault Message :=
  compose .authChallenge (u64Bytes token ++ (u32Bytes authType ++ (sizeBytes challenge.length ++
    (sizeBytes keyId.length ++ (challenge ++ keyId)))))

def reply (token : UInt64) (answered : UInt32) (error : Int32) : Except Fault Message :=
  compose .reply (u64Bytes token ++ u32Bytes answered ++ i32Bytes error)

def close (token : UInt64) : Except Fault Message := compose .close (u64Bytes token)

def filterBytes (f : Filter) : Bytes := u32Bytes f.uid ++ u32Bytes f.ruleId ++ u32Bytes f.subsystem

/-- A region that is empty when the text is absent and holds a terminator otherwise. -/
def optionalText (text : Option Bytes) : Bytes := (text.map terminated).getD []

def registration (op : Opcode) (token : UInt64) (filter : Filter) (label : Option Bytes) :
    Except Fault Message :=
  let label := optionalText label
  compose op (u64Bytes token ++ (filterBytes filter ++ (sizeBytes label.length ++ label)))

def register (r : Registration) : Except Fault Message :=
  registration .register r.token r.filter r.label

def unregister (token : UInt64) (filter : Filter) : Except Fault Message :=
  registration .unregister token filter none

def event (e : Event) : Except Fault Message :=
  let path := optionalText e.path
  let pathStart := e.checksum.length
  let detailStart := pathStart + path.length
  compose (if e.needsVerdict then .ask else .notify)
    (u64Bytes e.token ++ (u32Bytes e.pid ++ (filterBytes e.key ++ (u32Bytes e.priority ++
      (sizeBytes 0 ++ (sizeBytes e.checksum.length ++
      (sizeBytes pathStart ++ (sizeBytes path.length ++
      (sizeBytes detailStart ++ (sizeBytes e.detail.length ++
      (e.checksum ++ (path ++ e.detail))))))))))))

def answer (token : UInt64) (verdict : Verdict) (delegate : Bool) : Except Fault Message :=
  compose .answer (u64Bytes token ++ i32Bytes verdict.code ++ u32Bytes (if delegate then 1 else 0))

def outcome (token : UInt64) (you : Bool) (uid : UInt32) (verdict : Verdict) :
    Except Fault Message :=
  compose (if you then .resultYou else .resultOther)
    (u64Bytes token ++ u32Bytes uid ++ i32Bytes verdict.code)

def status (token : UInt64) (key value : UInt32) : Except Fault Message :=
  compose .status (u64Bytes token ++ u32Bytes key ++ u32Bytes value)

def csumRequest (token : UInt64) (operation uid : UInt32) (keyId path : Bytes) :
    Except Fault Message :=
  let path := terminated path
  compose .csumRequest (u64Bytes token ++ (u32Bytes operation ++ (u32Bytes uid ++
    (sizeBytes keyId.length ++ (sizeBytes path.length ++ (keyId ++ path))))))

/-- A zero byte would end a string early, so none may hold one. -/
def stringList (token : UInt64) (flags : UInt32) (strings : List Bytes) : Except Fault Message := do
  require (∀ s ∈ strings, 0 ∉ s) (.unterminated .stringList "strings")
  compose .stringList (u64Bytes token ++ (u32Bytes flags ++ strings.flatMap terminated))

def requestRecord (r : RequestRecord) : Except Fault Bytes :=
  let path := terminated r.path
  let size := Layout.RequestRecord.payload + r.checksum.length + path.length
  if size < UInt32.size then
    .ok (sizeBytes size ++ (u32Bytes r.index ++ (sizeBytes r.checksum.length ++
      (sizeBytes path.length ++ (r.checksum ++ path)))))
  else .error (.regionTooLarge "record")

def csumMultiRequest (token : UInt64) (operation uid : UInt32) (keyId : Bytes)
    (records : List RequestRecord) : Except Fault Message := do
  let encoded ← records.mapM requestRecord
  compose .csumMultiRequest (u64Bytes token ++ (u32Bytes operation ++ (u32Bytes uid ++
    (sizeBytes keyId.length ++ (sizeBytes records.length ++ (keyId ++ encoded.flatten))))))

def replyRecord (r : ReplyRecord) : Except Fault Bytes :=
  let size := Layout.ReplyRecord.payload + r.checksum.length
  if size < UInt32.size then
    .ok (sizeBytes size ++ (u32Bytes r.index ++ (i32Bytes r.error ++
      (sizeBytes r.checksum.length ++ r.checksum))))
  else .error (.regionTooLarge "record")

def csumMultiReply (token : UInt64) (operation : UInt32) (error : Int32)
    (records : List ReplyRecord) : Except Fault Message := do
  let encoded ← records.mapM replyRecord
  compose .csumMultiReply (u64Bytes token ++ (u32Bytes operation ++ (i32Bytes error ++
    (sizeBytes records.length ++ encoded.flatten))))

end Arbiter.Message
