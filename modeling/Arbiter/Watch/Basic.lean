import Arbiter.Client.Basic
import Arbiter.Frame
import Arbiter.Watch.Options

/-!
A watch: a client that subscribes to one filter as soon as it is connected and answers every event
it is asked about in the same way. It prints each outcome, and ends with the stream, with the first
outcome if it was told to, or with the first error.
-/

namespace Arbiter

inductive WatchError where
  | stream (ending : Frame.Ending)
  | client (error : ClientError)
  | handshakeRefused (error : Int32)
  | requestRefused (token : UInt64) (error : Int32)
deriving DecidableEq

/-- The text of an error, with its token written in the given way. -/
def WatchError.textWith (token : UInt64 → String) : WatchError → String
  | stream ending => ending.text
  | client error => error.text
  | handshakeRefused error => s!"handshake refused: {error.toInt}"
  | requestRefused t error => "request " ++ token t ++ s!" refused: {error.toInt}"

def WatchError.text : WatchError → String := textWith fun t => Hex.number 0 t.toNat

inductive WatchEnd where
  | finished
  | failed (error : WatchError)
deriving DecidableEq

structure Watch where
  options : WatchOptions
  client : Client
  unread : Bytes
  /-- Messages written, in order. -/
  sent : List Message
  printed : List String
  ended : Option WatchEnd

namespace Watch

def new (options : WatchOptions) (firstToken : UInt64) : Watch :=
  ⟨options, .new firstToken, [], [], [], none⟩

def finish (w : Watch) : Watch := { w with ended := some .finished }

def fail (w : Watch) (e : WatchError) : Watch := { w with ended := some (.failed e) }

/-- Writes what the client wants written, or fails with it. -/
def write (w : Watch) (result : Except ClientError Message × Client) : Watch :=
  match result with
  | (.ok m, c) => { w with client := c, sent := w.sent ++ [m] }
  | (.error e, c) => { w with client := c }.fail (.client e)

def print (w : Watch) (token : UInt64) (you : Bool) (uid : UInt32) (verdict : Verdict) : Watch :=
  let decider := if you then "you" else "other"
  { w with printed := w.printed ++ [s!"{token} {decider} {uid} {verdict.text}"] }

/-- After the first outcome the connection is closed and nothing more is read. -/
def close (w : Watch) : Watch :=
  let w := w.write w.client.close
  if w.ended.isNone then w.finish else w

def heed (w : Watch) (n : Notice) : Watch :=
  match w.ended with
  | some _ => w
  | none =>
    match n with
    | .connected _ => w.write (w.client.register w.options.filter)
    | .refused error => w.fail (.handshakeRefused error)
    | .requestFailed token error => w.fail (.requestRefused token error)
    | .ask info =>
      w.write (w.client.answer info.token w.options.verdict w.options.delegate, w.client)
    | .outcome token you uid verdict =>
      let w := w.print token you uid verdict
      if w.options.once then w.close else w
    | _ => w

def receive (w : Watch) (m : Message) : Watch :=
  match w.ended with
  | some _ => w
  | none =>
    match w.client.receive m with
    | (.error e, c) => { w with client := c }.fail (.client e)
    | (.ok r, c) => r.notices.foldl heed { w with client := c, sent := w.sent ++ r.send }

/-- Whatever ended the watch, a length out of range ends it as soon as it is read. -/
def endWith (w : Watch) (ending : Frame.Ending) : Watch :=
  match w.ended, ending with
  | some _, _ => w
  | none, .finished => w.finish
  | none, ending => w.fail (.stream ending)

/-- More bytes of the stream. -/
def read (w : Watch) (bytes : Bytes) : Watch :=
  let (frames, left) := Frame.split Message.maxSize (w.unread ++ bytes)
  let w := frames.foldl receive { w with unread := left }
  match Frame.read Message.maxSize left with
  | .badLength declared _ => w.endWith (.badLength declared)
  | _ => w

/-- The end of the stream. -/
def readEnd (w : Watch) : Watch := w.endWith (Frame.ending Message.maxSize w.unread).1

/-- A watch over a whole stream. -/
def run (options : WatchOptions) (firstToken : UInt64) (stream : Bytes) : Watch :=
  ((new options firstToken).read stream).readEnd

end Watch

end Arbiter
