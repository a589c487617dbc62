import Arbiter.Settings.Basic
import Arbiter.Toml.Document

/-!
The settings file: a section for the daemon and one for logging, whose fields may each be left out.
Fields of other names are passed over; a known field of another type makes the file unusable.
-/

namespace Arbiter

structure DaemonSection where
  socketPath : Option String
  outboundQueueDepth : Option Nat
  inboundQueueDepth : Option Nat
  settledTokenCapacity : Option Nat
  defaultVerdict : Option Int32
  maxMessageLen : Option Nat
deriving DecidableEq, Repr

structure LoggingSection where
  level : Option String
  logsDir : Option String
  jsonConsole : Option Bool
deriving DecidableEq, Repr

structure SettingsFile where
  daemon : DaemonSection
  logging : LoggingSection
deriving DecidableEq, Repr

namespace Toml.Value

def string? : Value → Option String
  | string text => some text
  | _ => none

def nat? : Value → Option Nat
  | integer n => if 0 ≤ n then some n.toNat else none
  | _ => none

def int32? : Value → Option Int32
  | integer n => Word.int32? n
  | _ => none

def boolean? : Value → Option Bool
  | boolean b => some b
  | _ => none

/-- The fields of a section. An array gives them in their order, and a moment gives none. -/
def section? (names : List String) : Value → Option Fields
  | table _ fields => some fields
  | array items => some (names.zip items)
  | tables items => some (names.zip (items.map (table .header)))
  | moment => some []
  | _ => none

end Toml.Value

/-- A field that may be left out: absent, or of the type that is read. -/
def Toml.Fields.field? {α : Type} (fields : Toml.Fields) (key : String)
    (read : Toml.Value → Option α) : Option (Option α) :=
  match fields.lookup key with
  | none => some none
  | some v => (read v).map some

def Toml.Fields.section? (fields : Toml.Fields) (key : String) (names : List String) :
    Option Toml.Fields :=
  match fields.lookup key with
  | none => some []
  | some v => v.section? names

namespace DaemonSection

def names : List String :=
  ["socket_path", "outbound_queue_depth", "inbound_queue_depth", "settled_token_capacity",
    "default_verdict", "max_message_len"]

def ofFields? (fields : Toml.Fields) : Option DaemonSection := do
  return {
    socketPath := ← fields.field? "socket_path" Toml.Value.string?
    outboundQueueDepth := ← fields.field? "outbound_queue_depth" Toml.Value.nat?
    inboundQueueDepth := ← fields.field? "inbound_queue_depth" Toml.Value.nat?
    settledTokenCapacity := ← fields.field? "settled_token_capacity" Toml.Value.nat?
    defaultVerdict := ← fields.field? "default_verdict" Toml.Value.int32?
    maxMessageLen := ← fields.field? "max_message_len" Toml.Value.nat? }

def settings (s : DaemonSection) : DaemonSettings where
  socketPath := s.socketPath.getD DaemonSettings.default.socketPath
  outboundQueueDepth := s.outboundQueueDepth.getD DaemonSettings.default.outboundQueueDepth
  inboundQueueDepth := s.inboundQueueDepth.getD DaemonSettings.default.inboundQueueDepth
  settledTokenCapacity := s.settledTokenCapacity.getD DaemonSettings.default.settledTokenCapacity
  defaultVerdict := s.defaultVerdict.getD DaemonSettings.default.defaultVerdict
  maxMessageLen := s.maxMessageLen.getD DaemonSettings.default.maxMessageLen

end DaemonSection

namespace LoggingSection

def names : List String := ["level", "logs_dir", "json_console"]

def ofFields? (fields : Toml.Fields) : Option LoggingSection := do
  return {
    level := ← fields.field? "level" Toml.Value.string?
    logsDir := ← fields.field? "logs_dir" Toml.Value.string?
    jsonConsole := ← fields.field? "json_console" Toml.Value.boolean? }

def settings (s : LoggingSection) : LoggingSettings where
  level := s.level.getD LoggingSettings.default.level
  logsDir := s.logsDir.or LoggingSettings.default.logsDir
  jsonConsole := s.jsonConsole.getD LoggingSettings.default.jsonConsole

end LoggingSection

namespace SettingsFile

def empty : SettingsFile := ⟨⟨none, none, none, none, none, none⟩, ⟨none, none, none⟩⟩

def ofFields? (fields : Toml.Fields) : Option SettingsFile := do
  return {
    daemon := ← DaemonSection.ofFields? (← fields.section? "daemon" DaemonSection.names)
    logging := ← LoggingSection.ofFields? (← fields.section? "logging" LoggingSection.names) }

def parse? (text : String) : Option SettingsFile := do
  ofFields? (← Toml.Document.parse? text)

/-- What the file sets, and the defaults for the rest. -/
def settings (f : SettingsFile) : Settings := ⟨f.daemon.settings, f.logging.settings⟩

end SettingsFile

namespace Settings

def line (name value : String) : String := name ++ " = " ++ value ++ "\n"

/-- The settings as a file that sets them all; none where a size is too large to be written. -/
def render? (s : Settings) : Option String :=
  let d := s.daemon
  let sizes := [d.outboundQueueDepth, d.inboundQueueDepth, d.settledTokenCapacity, d.maxMessageLen]
  if sizes.any fun n => ¬Word.FitsInt64 n then none
  else
    some (String.join [
      "[daemon]\n",
      line "socket_path" (Toml.Quoted.write d.socketPath),
      line "outbound_queue_depth" (toString d.outboundQueueDepth),
      line "inbound_queue_depth" (toString d.inboundQueueDepth),
      line "settled_token_capacity" (toString d.settledTokenCapacity),
      line "default_verdict" (toString d.defaultVerdict.toInt),
      line "max_message_len" (toString d.maxMessageLen),
      "\n[logging]\n",
      line "level" (Toml.Quoted.write s.logging.level),
      match s.logging.logsDir with
      | some dir => line "logs_dir" (Toml.Quoted.write dir)
      | none => "",
      line "json_console" (toString s.logging.jsonConsole)])

end Settings

end Arbiter
