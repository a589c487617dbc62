import Arbiter.BigEndian
import Arbiter.Message.Opcode

/-!
The format as a grammar on bytes, with no cursor: which bytes are a message. A message is its
length, the code of its kind, a body and a trailer; a body has the form of its kind. Lengths and
starts inside a body count from its payload, the bytes behind the last number.
-/

namespace Arbiter.Grammar

def Splits (body : Bytes) (width : Nat) (numbers : List UInt32) (payload : Bytes) : Prop :=
  ∃ front : Bytes, front.length = width ∧ body = front ++ (numbers.flatMap u32Bytes ++ payload)

def Within (payload : Bytes) (start size : UInt32) : Prop :=
  start.toNat + size.toNat ≤ payload.length

def Text (payload : Bytes) (start size : UInt32) : Prop :=
  Within payload start size ∧ 0 ∈ (payload.drop start.toNat).take size.toNat

def Verdicts (body : Bytes) (width size : Nat) : Prop :=
  body.length = size ∧ ∃ (code : Int32) (front back : Bytes), 0 ≤ code ∧ front.length = width ∧
    body = front ++ (i32Bytes code ++ back)

def IsRequestRecord (record : Bytes) : Prop :=
  ∃ (size index checksumSize pathSize : UInt32) (checksum path : Bytes),
    record = [size, index, checksumSize, pathSize].flatMap u32Bytes ++ (checksum ++ path) ∧
      size.toNat = record.length ∧ checksumSize.toNat = checksum.length ∧
      pathSize.toNat = path.length ∧ 0 ∈ path

def IsReplyRecord (record : Bytes) : Prop :=
  ∃ (size index error checksumSize : UInt32) (checksum : Bytes),
    record = [size, index, error, checksumSize].flatMap u32Bytes ++ checksum ∧
      size.toNat = record.length ∧ checksumSize.toNat = checksum.length

def Records (IsRecord : Bytes → Prop) (count : Nat) (payload : Bytes) : Prop :=
  ∃ (records : List Bytes) (rest : Bytes), records.length = count ∧
    (∀ record ∈ records, IsRecord record) ∧ payload = records.flatten ++ rest

def AuthChallenge (body : Bytes) : Prop :=
  ∃ challengeSize keyIdSize payload, Splits body 12 [challengeSize, keyIdSize] payload ∧
    Within payload challengeSize keyIdSize

def Registration (body : Bytes) : Prop :=
  ∃ labelSize payload, Splits body 20 [labelSize] payload ∧
    (labelSize = 0 ∨ Text payload 0 labelSize)

def Event (body : Bytes) : Prop :=
  ∃ checksumStart checksumSize pathStart pathSize detailStart detailSize payload,
    Splits body 28 [checksumStart, checksumSize, pathStart, pathSize, detailStart, detailSize]
        payload ∧
      Within payload checksumStart checksumSize ∧
      (pathSize = 0 ∨ Text payload pathStart pathSize) ∧
      Within payload detailStart detailSize

def CsumRequest (body : Bytes) : Prop :=
  ∃ keyIdSize pathSize payload, Splits body 16 [keyIdSize, pathSize] payload ∧
    Text payload keyIdSize pathSize

def StringList (body : Bytes) : Prop :=
  ∃ payload, Splits body 12 [] payload ∧ (payload = [] ∨ ∃ strings, payload = strings ++ [0])

def CsumMultiRequest (body : Bytes) : Prop :=
  ∃ keyIdSize count keyId payload, Splits body 16 [keyIdSize, count] (keyId ++ payload) ∧
    keyId.length = keyIdSize.toNat ∧ Records IsRequestRecord count.toNat payload

def CsumMultiReply (body : Bytes) : Prop :=
  ∃ count payload, Splits body 16 [count] payload ∧ Records IsReplyRecord count.toNat payload

def Form : Opcode → Bytes → Prop
  | .hello, body => body.length = 8
  | .versel, body => body.length = 12
  | .auth, body => body.length = 12
  | .authChallenge, body => AuthChallenge body
  | .reply, body => body.length = 16
  | .close, body => body.length = 8
  | .register, body => Registration body
  | .unregister, body => Registration body
  | .notify, body => Event body
  | .ask, body => Event body
  | .answer, body => Verdicts body 8 16
  | .resultYou, body => Verdicts body 12 16
  | .resultOther, body => Verdicts body 12 16
  | .status, body => body.length = 16
  | .csumRequest, body => CsumRequest body
  | .stringList, body => StringList body
  | .csumMultiRequest, body => CsumMultiRequest body
  | .csumMultiReply, body => CsumMultiReply body
  | .retired _, _ => True

/-- A message: its length in the first four bytes, the code of its kind in the next four, a body of
that kind, and a trailer of four bytes. -/
def WellFormed (bytes : Bytes) : Prop :=
  12 ≤ bytes.length ∧ bytes.length ≤ 100000 ∧
    ∃ (op : Opcode) (body trailer : Bytes), trailer.length = 4 ∧ Form op body ∧
      bytes = BigEndian.encode 4 bytes.length ++ (u32Bytes op.code ++ (body ++ trailer))

end Arbiter.Grammar
