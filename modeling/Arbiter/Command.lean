import Arbiter.Capture
import Arbiter.Daemon.Hub
import Arbiter.Settings.Load
import Arbiter.Watch.Basic

/-!
What the commands come to: an exit code and the lines printed, as a function of what they are given.
-/

namespace Arbiter

structure Outcome where
  exit : UInt8
  lines : List String
deriving DecidableEq

namespace Outcome

def ofSuccess (success : Bool) (lines : List String) : Outcome := ⟨if success then 0 else 1, lines⟩

/-- Checks a capture; none is given where the file cannot be read. -/
def verify : Option Bytes → Outcome
  | some bytes => ofSuccess (Capture.allValid bytes) ((Capture.reports bytes).map (·.line))
  | none => ofSuccess false []

/-- A text that ends its last line, as its lines. -/
def linesOf (text : String) : List String := (text.splitOn "\n").dropLast

def checkSettings (path : String) (source : SettingsSource) (env : Settings.Environment) :
    Outcome :=
  match (Settings.load path source env).bind Settings.render with
  | .ok text => ofSuccess true (linesOf text)
  | .error _ => ofSuccess false []

end Outcome

/-- How far the daemon gets when it is started. -/
inductive Launch where
  | noSettings (e : SettingsError)
  /-- The socket cannot be made. -/
  | noSocket (s : Settings)
  /-- The queue of a connection would be too deep to be made: the first client is dropped unheard,
  and the daemon ends with it and leaves its socket behind. -/
  | noQueue (s : Settings)
  | serving (s : Settings)

namespace Launch

/-- The deepest queue that can be made: its places are counted in 61 bits. -/
def maxQueueDepth : Nat := UInt64.size / 8 - 1

/-- A socket named on the command line wins over the settings. -/
def start (loaded : Except SettingsError Settings) (socket : Option String)
    (usable : String → Bool) : Launch :=
  match loaded with
  | .error e => noSettings e
  | .ok s =>
    let s := { s with daemon := { s.daemon with socketPath := socket.getD s.daemon.socketPath } }
    if !usable s.daemon.socketPath then noSocket s
    else if s.daemon.outboundQueueDepth ≤ maxQueueDepth then serving s
    else noQueue s

def exit : Launch → UInt8
  | serving _ => 0
  | _ => 1

/-- The log is opened as soon as the settings are known. -/
def logs : Launch → Bool
  | noSettings _ => false
  | noSocket s | noQueue s | serving s => s.logging.logsDir.isSome

/-- What a client of its own hears: it reads once when it is connected and once after each of its
writes. -/
def heard (uid : UInt32) (sends : List Bytes) : Launch → List (Option Message)
  | noSettings _ | noSocket _ => []
  | noQueue _ => List.replicate (sends.length + 1) none
  | serving s => (Hub.new s.daemon : Hub Unit).converse uid sends

/-- Whether the socket is still there when the daemon has ended. -/
def leavesSocket : Launch → Bool
  | noQueue _ => true
  | _ => false

end Launch

end Arbiter
