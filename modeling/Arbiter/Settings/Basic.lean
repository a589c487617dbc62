import Arbiter.Broker.Basic
import Arbiter.Text.Decimal
import Arbiter.Word

/-!
The settings of the daemon. Each has a default; the file may set any of them and the environment
some, which then win. Whatever the source, the settings in force are within bounds.
-/

namespace Arbiter

structure DaemonSettings where
  socketPath : String
  outboundQueueDepth : Nat
  inboundQueueDepth : Nat
  settledTokenCapacity : Nat
  defaultVerdict : Int32
  maxMessageLen : Nat
deriving DecidableEq, Repr

structure LoggingSettings where
  level : String
  logsDir : Option String
  jsonConsole : Bool
deriving DecidableEq, Repr

structure Settings where
  daemon : DaemonSettings
  logging : LoggingSettings
deriving DecidableEq, Repr

namespace DaemonSettings

def default : DaemonSettings where
  socketPath := "/run/warden/warden.sock"
  outboundQueueDepth := 64
  inboundQueueDepth := 256
  settledTokenCapacity := Broker.defaultSettledCapacity
  defaultVerdict := Verdict.noDecision.code
  maxMessageLen := Message.maxSize

/-- The verdict on events that nobody subscribed to. -/
def verdict (s : DaemonSettings) : Verdict :=
  (Verdict.ofCode? s.defaultVerdict).getD .noDecision

def clamp (low high n : Nat) : Nat := max low (min n high)

def normalize (s : DaemonSettings) : DaemonSettings :=
  { s with
    maxMessageLen := clamp Message.minSize Message.maxSize s.maxMessageLen
    outboundQueueDepth := max s.outboundQueueDepth 1
    inboundQueueDepth := max s.inboundQueueDepth 1
    defaultVerdict := s.verdict.code }

end DaemonSettings

def LoggingSettings.default : LoggingSettings := ⟨"info", none, false⟩

namespace Settings

def default : Settings := ⟨.default, .default⟩

def normalize (s : Settings) : Settings := { s with daemon := s.daemon.normalize }

def code? (text : String) : Option Int32 := (Decimal.int? text).bind Word.int32?

def size? (text : String) : Option Nat :=
  (Decimal.nat? text).bind fun n => if n < UInt64.size then some n else none

/-- The settings under an environment; a number that cannot be read is passed over. -/
def override (env : String → Option String) (s : Settings) : Settings where
  daemon := { s.daemon with
    socketPath := (env "WARDEN_SOCKET").getD s.daemon.socketPath
    defaultVerdict := ((env "WARDEN_DEFAULT_VERDICT").bind code?).getD s.daemon.defaultVerdict
    outboundQueueDepth :=
      ((env "WARDEN_OUTBOUND_QUEUE_DEPTH").bind size?).getD s.daemon.outboundQueueDepth }
  logging := { s.logging with
    level := (env "WARDEN_LOG_LEVEL").getD s.logging.level
    logsDir := (env "WARDEN_LOGS_DIR").or s.logging.logsDir }

end Settings

end Arbiter
