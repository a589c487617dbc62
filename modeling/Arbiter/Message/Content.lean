import Arbiter.Filter
import Arbiter.Verdict
import Arbiter.Message.Fault

/-!
What a message says, one constructor for each thing that can be said. Strings are without their
terminators; an absent label or path differs from an empty one.
-/

namespace Arbiter

structure Registration where
  token : UInt64
  filter : Filter
  label : Option Bytes
deriving DecidableEq

structure Event where
  needsVerdict : Bool
  token : UInt64
  pid : UInt32
  uid : UInt32
  ruleId : UInt32
  subsystem : UInt32
  priority : UInt32
  checksum : Bytes
  path : Option Bytes
  detail : Bytes
deriving DecidableEq

def Event.key (e : Event) : Filter := ⟨e.uid, e.ruleId, e.subsystem⟩

structure RequestRecord where
  index : UInt32
  checksum : Bytes
  path : Bytes
deriving DecidableEq

structure ReplyRecord where
  index : UInt32
  error : Int32
  checksum : Bytes
deriving DecidableEq

inductive Content where
  | hello (version minVersion : UInt32)
  | versel (token : UInt64) (version : UInt32)
  | auth (token : UInt64) (authType : UInt32)
  | authChallenge (token : UInt64) (authType : UInt32) (challenge keyId : Bytes)
  | reply (token : UInt64) (opcode : UInt32) (error : Int32)
  | close (token : UInt64)
  | register (r : Registration)
  | unregister (r : Registration)
  | event (e : Event)
  | answer (token : UInt64) (verdict : Verdict) (delegate : Bool)
  | outcome (token : UInt64) (you : Bool) (uid : UInt32) (verdict : Verdict)
  | status (token : UInt64) (key value : UInt32)
  | csumRequest (token : UInt64) (operation uid : UInt32) (keyId path : Bytes)
  | stringList (token : UInt64) (flags : UInt32) (strings : List Bytes)
  | csumMultiRequest (token : UInt64) (operation uid : UInt32) (keyId : Bytes)
      (records : List RequestRecord)
  | csumMultiReply (token : UInt64) (operation : UInt32) (error : Int32)
      (records : List ReplyRecord)
  | retired (kind : Retired)
deriving DecidableEq

namespace Content

def token? : Content → Option UInt64
  | hello _ _ => none
  | versel token _ => some token
  | auth token _ => some token
  | authChallenge token _ _ _ => some token
  | reply token _ _ => some token
  | close token => some token
  | register r => some r.token
  | unregister r => some r.token
  | event e => some e.token
  | answer token _ _ => some token
  | outcome token _ _ _ => some token
  | status token _ _ => some token
  | csumRequest token _ _ _ _ => some token
  | stringList token _ _ => some token
  | csumMultiRequest token _ _ _ _ => some token
  | csumMultiReply token _ _ _ => some token
  | retired _ => none

end Content

end Arbiter
