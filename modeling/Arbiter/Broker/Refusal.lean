import Arbiter.Broker.Session
import Arbiter.Errno
import Arbiter.Message.Fault

/-!
Why a send or an operation of the broker is refused, with the text and the reply code of each cause.
-/

namespace Arbiter

inductive SendRefusal where
  | closed
  | full
deriving DecidableEq, Repr

def SendRefusal.text : SendRefusal → String
  | closed => "channel closed"
  | full => "outbound queue full"

inductive Refusal where
  | unknownSession (id : SessionId)
  | unknownHead (id : HeadId)
  | permissionDenied (uid : UInt32) (filter : Filter)
  | noSuchRegistration (filter : Filter)
  | duplicateToken (token : UInt64)
  | unknownToken (token : UInt64)
  | alreadyAnswered (token : UInt64)
  | sendFailed
  | queueFull
  | headInUse (id : HeadId)
  | notAnEvent (opcode : String)
  | malformed (fault : Fault)
deriving DecidableEq

namespace Refusal

def ofSend : SendRefusal → Refusal
  | .closed => sendFailed
  | .full => queueFull

def IsSend (r : Refusal) : Prop := r = sendFailed ∨ r = queueFull

instance (r : Refusal) : Decidable r.IsSend := inferInstanceAs (Decidable (_ ∨ _))

/-- The name of the cause without its particulars. -/
def label : Refusal → String
  | unknownSession _ => "UnknownSession"
  | unknownHead _ => "UnknownHead"
  | permissionDenied _ _ => "PermissionDenied"
  | noSuchRegistration _ => "NoSuchRegistration"
  | duplicateToken _ => "DuplicateToken"
  | unknownToken _ => "UnknownToken"
  | alreadyAnswered _ => "AlreadyAnswered"
  | sendFailed => "SendFailed"
  | queueFull => "QueueFull"
  | headInUse _ => "HeadInUse"
  | notAnEvent _ => "NotAnEvent"
  | malformed _ => "Wire"

def text : Refusal → String
  | unknownSession id => "unknown session " ++ id.text
  | unknownHead id => "unknown event head " ++ id.text
  | permissionDenied uid filter => s!"uid {uid} may not register for " ++ filter.text
  | noSuchRegistration filter => "no registration matching " ++ filter.text
  | duplicateToken token => "token " ++ Hex.number 0 token.toNat ++ " already pending"
  | unknownToken token => "unknown token " ++ Hex.number 0 token.toNat
  | alreadyAnswered token => "token " ++ Hex.number 0 token.toNat ++ " already answered"
  | sendFailed => "send failed: " ++ SendRefusal.closed.text
  | queueFull => SendRefusal.full.text
  | headInUse id => "event head " ++ id.text ++ " has live instances"
  | notAnEvent opcode => "not an event message: " ++ opcode
  | malformed fault => fault.text

def errno : Refusal → Int32
  | unknownSession _ => Errno.noEntry
  | unknownHead _ => Errno.noEntry
  | permissionDenied _ _ => Errno.notPermitted
  | noSuchRegistration _ => Errno.noEntry
  | duplicateToken _ => Errno.alreadyExists
  | unknownToken _ => Errno.noEntry
  | alreadyAnswered _ => Errno.busy
  | sendFailed => Errno.brokenPipe
  | queueFull => Errno.outOfMemory
  | headInUse _ => Errno.busy
  | notAnEvent _ => Errno.invalidArgument
  | malformed _ => Errno.invalidArgument

end Refusal

end Arbiter
