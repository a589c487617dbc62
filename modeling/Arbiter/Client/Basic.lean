import Arbiter.Client.TransactionSet
import Arbiter.Errno
import Arbiter.Message.Encode
import Arbiter.Table
import Arbiter.Text.Utf8

/-!
The client's side of a connection. It greets, asks for registrations, answers events and closes;
each request is a transaction under a token of its own, and the reply to it becomes one notice.
Whatever no request waits for is reported as it is.
-/

namespace Arbiter

def protocolVersion : UInt32 := 3

def protocolMinVersion : UInt32 := 2

structure EventInfo where
  token : UInt64
  pid : UInt32
  uid : UInt32
  ruleId : UInt32
  subsystem : UInt32
  priority : UInt32
  path : Option String
  payload : Bytes
deriving DecidableEq

def EventInfo.ofEvent (e : Event) : EventInfo :=
  ⟨e.token, e.pid, e.uid, e.ruleId, e.subsystem, e.priority, e.path.map Utf8.decodeLossy, e.detail⟩

inductive Notice where
  | connected (version : UInt32)
  | refused (error : Int32)
  | registered (token : UInt64) (filter : Filter)
  | unregistered (token : UInt64) (filter : Filter)
  | requestFailed (token : UInt64) (error : Int32)
  | ask (info : EventInfo)
  | notify (info : EventInfo)
  | outcome (token : UInt64) (you : Bool) (uid : UInt32) (verdict : Verdict)
  | answerRejected (token : UInt64) (error : Int32)
  | status (key value : UInt32)
  | closed
deriving DecidableEq

inductive ClientError where
  | malformed (fault : Fault)
  | transaction (error : TransactionError)
  | incompatible (min max : UInt32)
  | notConnected
deriving DecidableEq

def ClientError.text : ClientError → String
  | malformed fault => fault.text
  | transaction error => error.text
  | incompatible min max =>
    s!"server speaks versions {min}..={max}, none of which is supported"
  | notConnected => "not connected"

inductive Request where
  | hello
  | versel (version : UInt32)
  | register (filter : Filter)
  | unregister (filter : Filter)
  | close
deriving DecidableEq

/-- What a received message leads to. -/
structure Reaction where
  send : List Message
  notices : List Notice

def Reaction.none : Reaction := ⟨[], []⟩

def Reaction.notice (n : Notice) : Reaction := ⟨[], [n]⟩

structure Client where
  nextToken : UInt64
  transactions : TransactionSet Unit Empty
  pending : Table UInt64 Request
  version : Option UInt32

namespace Client

/-- A request finishes with the error of its reply. -/
def replyReactor : Reactor Unit where
  react _ _ m :=
    let code := match m.decode with
      | .ok (.reply _ _ error) => error
      | _ => Errno.protocolError
    ([.done code], ())

def greetingFlags : TransactionFlags := ⟨false, true, false, true, true, false⟩

def requestFlags : TransactionFlags := ⟨true, false, false, true, true, false⟩

/-- A client that waits for the greeting, which has token zero; its own tokens are never zero. -/
def new (firstToken : UInt64) : Client :=
  let idle : Client := ⟨firstToken, .empty, .empty, none⟩
  match Transaction.create 0 greetingFlags [Opcode.hello.code] none none with
  | .ok t => { idle with
      transactions := idle.transactions.insert t
      pending := idle.pending.insert 0 .hello }
  | .error _ => idle

def takeToken (c : Client) : UInt64 × Client :=
  let next := c.nextToken + 1
  (c.nextToken, { c with nextToken := if next = 0 then 1 else next })

/-- A request just written is tracked until its reply. -/
def track (c : Client) (token : UInt64) (what : Request) : Except ClientError Client :=
  match Transaction.create token requestFlags [Opcode.reply.code] (some ()) none with
  | .error e => .error (.transaction e)
  | .ok t => .ok { c with
      transactions := c.transactions.insert t
      pending := c.pending.insert token what }

/-- Writes a request under the next token and tracks it. -/
def request (c : Client) (what : Request) (write : UInt64 → Except Fault Message) :
    Except ClientError Message × Client :=
  let (token, c) := c.takeToken
  match write token with
  | .error fault => (.error (.malformed fault), c)
  | .ok m =>
    match c.track token what with
    | .error e => (.error e, c)
    | .ok c => (.ok m, c)

def register (c : Client) (f : Filter) : Except ClientError Message × Client :=
  if c.version.isNone then (.error .notConnected, c)
  else c.request (.register f) fun token => Message.register ⟨token, f, none⟩

def unregister (c : Client) (f : Filter) : Except ClientError Message × Client :=
  if c.version.isNone then (.error .notConnected, c)
  else c.request (.unregister f) fun token => Message.unregister token f

/-- An answer is no request: only a refusal of it is ever heard of. -/
def answer (c : Client) (token : UInt64) (verdict : Verdict) (delegate : Bool) :
    Except ClientError Message :=
  if c.version.isNone then .error .notConnected
  else (Message.answer token verdict delegate).mapError .malformed

def close (c : Client) : Except ClientError Message × Client := c.request .close Message.close

/-- The greatest version both sides speak is selected. -/
def greeted (c : Client) (version minVersion : UInt32) : Except ClientError Reaction × Client :=
  let chosen := min version protocolVersion
  if chosen < max minVersion protocolMinVersion then (.error (.incompatible minVersion version), c)
  else
    match c.request (.versel chosen) fun token => Message.versel token chosen with
    | (.ok m, c) => (.ok ⟨[m], []⟩, c)
    | (.error e, c) => (.error e, c)

def concluded (c : Client) (token : UInt64) (code : Int32) (what : Request) (m : Option Message) :
    Except ClientError Reaction × Client :=
  match what with
  | .hello =>
    match m.map Message.decode with
    | some (.ok (.hello version minVersion)) => c.greeted version minVersion
    | _ => (.ok .none, c)
  | .versel version =>
    if code = 0 then (.ok (.notice (.connected version)), { c with version := some version })
    else (.ok (.notice (.refused code)), c)
  | .register f =>
    (.ok (.notice (if code = 0 then .registered token f else .requestFailed token code)), c)
  | .unregister f =>
    (.ok (.notice (if code = 0 then .unregistered token f else .requestFailed token code)), c)
  | .close => (.ok (.notice .closed), { c with version := none })

def finished (c : Client) (t : Transaction Unit Empty) : Except ClientError Reaction × Client :=
  match c.pending.get? t.token with
  | none => (.ok .none, c)
  | some what =>
    let c := { c with pending := c.pending.erase t.token }
    c.concluded t.token (t.result?.getD 0) what t.retained.head?

def unsolicited (m : Message) : Except ClientError Reaction :=
  match m.decode with
  | .error fault => .error (.malformed fault)
  | .ok (.event e) =>
    let info := EventInfo.ofEvent e
    .ok (.notice (if e.needsVerdict then .ask info else .notify info))
  | .ok (.outcome token you uid verdict) => .ok (.notice (.outcome token you uid verdict))
  | .ok (.reply token opcode error) =>
    .ok (if opcode = Opcode.answer.code then .notice (.answerRejected token error) else .none)
  | .ok (.status _ key value) => .ok (.notice (.status key value))
  | .ok _ => .ok .none

/-- A message that fails its check changes nothing. -/
def receive (c : Client) (m : Message) : Except ClientError Reaction × Client :=
  match m.check with
  | .error fault => (.error (.malformed fault), c)
  | .ok _ =>
    let isSelf := m.opcode? == some Opcode.reply.code
    let delivered := c.transactions.deliver replyReactor m isSelf
    let c := { c with transactions := delivered.set }
    match delivered.delivery with
    | .unmatched m => (unsolicited m, c)
    | .finished (some t) => c.finished t
    | _ => (.ok .none, c)

end Client

end Arbiter
