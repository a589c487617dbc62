/-!
The kinds of message. Codes are assigned in three blocks: connection control, notification and
policy service. Three codes of an older generation are still accepted but carry no content.
-/

namespace Arbiter

inductive Retired where
  | policyChange
  | logNotice
  | statistics
deriving DecidableEq, Repr

inductive Opcode where
  | hello
  | versel
  | auth
  | authChallenge
  | reply
  | close
  | register
  | unregister
  | notify
  | ask
  | answer
  | resultYou
  | resultOther
  | status
  | csumRequest
  | stringList
  | csumMultiRequest
  | csumMultiReply
  | retired (kind : Retired)
deriving DecidableEq, Repr

namespace Opcode

def code : Opcode → UInt32
  | hello => 0x1000
  | versel => 0x1001
  | auth => 0x1002
  | authChallenge => 0x1003
  | reply => 0x1004
  | close => 0x1005
  | register => 0x2000
  | unregister => 0x2001
  | notify => 0x2002
  | ask => 0x2003
  | answer => 0x2004
  | resultYou => 0x2005
  | resultOther => 0x2006
  | status => 0x2007
  | csumRequest => 0x3000
  | stringList => 0x3001
  | csumMultiRequest => 0x3002
  | csumMultiReply => 0x3003
  | retired .policyChange => 0x2100
  | retired .logNotice => 0x2101
  | retired .statistics => 0x3100

def all : List Opcode :=
  [hello, versel, auth, authChallenge, reply, close, register, unregister, notify, ask, answer,
    resultYou, resultOther, status, csumRequest, stringList, csumMultiRequest, csumMultiReply,
    retired .policyChange, retired .logNotice, retired .statistics]

def ofCode? (n : UInt32) : Option Opcode := all.find? (·.code == n)

def name : Opcode → String
  | hello => "C_HELLO"
  | versel => "C_VERSEL"
  | auth => "C_AUTH"
  | authChallenge => "C_AUTH_CHALLENGE"
  | reply => "C_REPLY"
  | close => "C_CLOSE"
  | register => "N_REGISTER"
  | unregister => "N_UNREGISTER"
  | notify => "N_NOTIFY"
  | ask => "N_ASK"
  | answer => "N_ANSWER"
  | resultYou => "N_RESULT_YOU"
  | resultOther => "N_RESULT_OTHER"
  | status => "N_STATUS"
  | csumRequest => "P_CSUM_REQUEST"
  | stringList => "P_STRING_LIST"
  | csumMultiRequest => "P_CSUM_MULTI_REQUEST"
  | csumMultiReply => "P_CSUM_MULTI_REPLY"
  | retired _ => "RETIRED"

def nameOfCode (n : UInt32) : String :=
  match ofCode? n with
  | some op => op.name
  | none => "UNKNOWN"

theorem ofCode?_code (op : Opcode) : ofCode? op.code = some op := by
  cases op with
  | retired kind => cases kind <;> rfl
  | _ => rfl

theorem code_of_ofCode? {n : UInt32} {op : Opcode} (h : ofCode? n = some op) : op.code = n := by
  have hfound := List.find?_some h
  simpa using hfound

theorem ofCode?_eq_some {n : UInt32} {op : Opcode} : ofCode? n = some op ↔ n = op.code :=
  ⟨fun h => (code_of_ofCode? h).symm, fun h => h ▸ ofCode?_code op⟩

theorem code_inj {op op' : Opcode} : op.code = op'.code ↔ op = op' := by
  constructor
  · intro h
    have hop := ofCode?_code op
    rw [h, ofCode?_code] at hop
    exact (Option.some.inj hop).symm
  · rintro rfl
    rfl

end Opcode

end Arbiter
