import Arbiter.Settings.File

/-!
The settings in force: those of the environment, else of the file, else the defaults, all brought
within bounds. Whatever reads the text of a file is an argument; `SettingsFile.parse?` is what runs.
-/

namespace Arbiter

/-- What stands at the path of the settings file. -/
inductive SettingsSource where
  | absent
  | unreadable
  | text (content : String)

inductive SettingsError where
  | malformed
  | invalidFile (path : String)
  | unreadable (path : String)
  /-- A setting cannot be written. -/
  | unwritable
deriving DecidableEq, Repr

def SettingsError.text : SettingsError → String
  | malformed => "failed to parse config TOML"
  | invalidFile path => "invalid config file " ++ path
  | unreadable path => "failed to read " ++ path
  | unwritable => "failed to render config"

namespace Settings

abbrev Environment := String → Option String

/-- The variables that are looked at. -/
def variableNames : List String :=
  ["WARDEN_CONFIG_PATH", "WARDEN_SOCKET", "WARDEN_LOG_LEVEL", "WARDEN_LOGS_DIR",
    "WARDEN_DEFAULT_VERDICT", "WARDEN_OUTBOUND_QUEUE_DEPTH"]

def defaultPath : String := "warden.toml"

def pathIn (env : Environment) : String := (env "WARDEN_CONFIG_PATH").getD defaultPath

def ofText (text : String) (parse : String → Option SettingsFile := SettingsFile.parse?) :
    Except SettingsError Settings :=
  match parse text with
  | some f => .ok f.settings.normalize
  | none => .error .malformed

def ofSource (path : String) (parse : String → Option SettingsFile) :
    SettingsSource → Except SettingsError Settings
  | .absent => .ok .default
  | .unreadable => .error (.unreadable path)
  | .text content =>
    match ofText content parse with
    | .ok s => .ok s
    | .error _ => .error (.invalidFile path)

def load (path : String) (source : SettingsSource) (env : Environment)
    (parse : String → Option SettingsFile := SettingsFile.parse?) : Except SettingsError Settings :=
  (ofSource path parse source).map fun s => (s.override env).normalize

def render (s : Settings) : Except SettingsError String :=
  match s.render? with
  | some text => .ok text
  | none => .error .unwritable

end Settings

end Arbiter
