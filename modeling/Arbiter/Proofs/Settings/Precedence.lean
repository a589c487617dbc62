import Mathlib.Logic.ExistsUnique
import Arbiter.Proofs.Settings.Numerals
import Arbiter.Settings.Load

/-!
Which settings are in force. A setting is taken from the environment where its variable is set and
can be read, else from the file, else it is the default; only then is it brought within bounds, each
setting by itself. That the file is brought within bounds before the environment is looked at makes
no difference. All this holds whatever reads the text of the file.
-/

namespace Arbiter

namespace DaemonSettings

variable {s : DaemonSettings}

structure InRange (s : DaemonSettings) : Prop where
  le_maxMessageLen : 12 ≤ s.maxMessageLen
  maxMessageLen_le : s.maxMessageLen ≤ 100000
  outboundQueueDepth_pos : 1 ≤ s.outboundQueueDepth
  inboundQueueDepth_pos : 1 ≤ s.inboundQueueDepth
  defaultVerdict_nonneg : 0 ≤ s.defaultVerdict

theorem code_verdict : s.verdict.code = if 0 ≤ s.defaultVerdict then s.defaultVerdict else 1 := by
  unfold verdict Verdict.ofCode?
  split <;> rfl

theorem clamp_of_le {low high n : Nat} (hlow : low ≤ n) (hhigh : n ≤ high) :
    clamp low high n = n := by
  rw [clamp, Nat.min_eq_left hhigh, Nat.max_eq_right hlow]

theorem inRange_normalize : s.normalize.InRange where
  le_maxMessageLen := Nat.le_max_left _ _
  maxMessageLen_le := Nat.max_le.mpr ⟨by decide, Nat.min_le_right _ _⟩
  outboundQueueDepth_pos := Nat.le_max_right _ _
  inboundQueueDepth_pos := Nat.le_max_right _ _
  defaultVerdict_nonneg := s.verdict.nonneg

theorem normalize_of_inRange (h : s.InRange) : s.normalize = s := by
  have hlen : clamp Message.minSize Message.maxSize s.maxMessageLen = s.maxMessageLen :=
    clamp_of_le h.le_maxMessageLen h.maxMessageLen_le
  rw [normalize, hlen, Nat.max_eq_left h.outboundQueueDepth_pos,
    Nat.max_eq_left h.inboundQueueDepth_pos, code_verdict, if_pos h.defaultVerdict_nonneg]

end DaemonSettings

namespace Settings

/-- What a setting is before it is brought within bounds. An entry of the environment that cannot be
read is as one that is not there. -/
inductive Prevails {α : Type} (reads : String → α → Prop) (entry : Option String)
    (file : Option α) (default : α) : α → Prop where
  | environment {text v} (hset : entry = some text) (hreads : reads text v) :
      Prevails reads entry file default v
  | file {v} (hpassed : ∀ text, entry = some text → ∀ v, ¬reads text v) (hfile : file = some v) :
      Prevails reads entry file default v
  | default (hpassed : ∀ text, entry = some text → ∀ v, ¬reads text v) (hfile : file = none) :
      Prevails reads entry file default default

section Sources

variable {α : Type} {reads : String → α → Prop} {read? : String → Option α}
variable {entry : Option String} {file : Option α} {default v : α}

theorem bind_eq_none (hread : ∀ text v, reads text v ↔ read? text = some v) :
    entry.bind read? = none ↔ ∀ text, entry = some text → ∀ v, ¬reads text v := by
  simp only [Option.bind_eq_none_iff, hread, ← Option.eq_none_iff_forall_ne_some]

theorem prevails_iff (hread : ∀ text v, reads text v ↔ read? text = some v) :
    Prevails reads entry file default v ↔ (entry.bind read?).getD (file.getD default) = v := by
  constructor
  · intro h
    cases h with
    | environment hset hreads =>
      rw [hset, Option.bind_some, (hread _ _).mp hreads, Option.getD_some]
    | file hpassed hfile =>
      rw [(bind_eq_none hread).mpr hpassed, Option.getD_none, hfile, Option.getD_some]
    | default hpassed hfile =>
      rw [(bind_eq_none hread).mpr hpassed, Option.getD_none, hfile, Option.getD_none]
  · rintro rfl
    cases hset : entry.bind read? with
    | some v =>
      obtain ⟨text, htext, hv⟩ := Option.bind_eq_some_iff.mp hset
      exact .environment htext ((hread _ _).mpr hv)
    | none =>
      have hpassed := (bind_eq_none hread).mp hset
      cases hfile : file with
      | some v => exact .file hpassed rfl
      | none => exact .default hpassed rfl

theorem prevails_text_iff {file : Option String} {default v : String} :
    Prevails (fun text v => v = text) entry file default v ↔
      entry.getD (file.getD default) = v := by
  have hread (text v : String) : v = text ↔ some text = some v := eq_comm.trans Option.some_inj.symm
  rw [prevails_iff hread, Option.bind_fun_some]

theorem prevails_place_iff {file v : Option String} :
    Prevails (fun text v => v = some text) entry (file.map some) none v ↔ entry.or file = v := by
  have hread (text : String) (v : Option String) : v = some text ↔ some (some text) = some v :=
    eq_comm.trans Option.some_inj.symm
  rw [prevails_iff hread]
  cases entry with
  | some => rfl
  | none => cases file <;> rfl

theorem prevails_code_iff {file : Option Int32} {default code : Int32} :
    Prevails WritesCode entry file default code ↔
      (entry.bind code?).getD (file.getD default) = code :=
  prevails_iff fun _ _ => code?_eq_some.symm

theorem prevails_size_iff {file : Option Nat} {default n : Nat} :
    Prevails WritesSize entry file default n ↔
      (entry.bind size?).getD (file.getD default) = n :=
  prevails_iff fun _ _ => size?_eq_some.symm

end Sources

variable {env : Environment} {f : SettingsFile} {s s' : Settings}

/-- The settings that follow from the environment and the file, one by one. -/
structure InForce (env : Environment) (f : SettingsFile) (s : Settings) : Prop where
  socketPath : Prevails (fun text v => v = text) (env "WARDEN_SOCKET") f.daemon.socketPath
    "/run/warden/warden.sock" s.daemon.socketPath
  level : Prevails (fun text v => v = text) (env "WARDEN_LOG_LEVEL") f.logging.level
    "info" s.logging.level
  logsDir : Prevails (fun text v => v = some text) (env "WARDEN_LOGS_DIR")
    (f.logging.logsDir.map some) none s.logging.logsDir
  /-- A negative code gives way to that of no decision. -/
  defaultVerdict : ∃ code,
    Prevails WritesCode (env "WARDEN_DEFAULT_VERDICT") f.daemon.defaultVerdict 1 code ∧
    s.daemon.defaultVerdict = if 0 ≤ code then code else 1
  outboundQueueDepth : ∃ n,
    Prevails WritesSize (env "WARDEN_OUTBOUND_QUEUE_DEPTH") f.daemon.outboundQueueDepth 64 n ∧
    s.daemon.outboundQueueDepth = max n 1
  inboundQueueDepth : s.daemon.inboundQueueDepth = max (f.daemon.inboundQueueDepth.getD 256) 1
  settledTokenCapacity :
    s.daemon.settledTokenCapacity = f.daemon.settledTokenCapacity.getD 1024
  maxMessageLen :
    s.daemon.maxMessageLen = max 12 (min (f.daemon.maxMessageLen.getD 100000) 100000)
  jsonConsole : s.logging.jsonConsole = f.logging.jsonConsole.getD false

theorem inForce_normalize : InForce env f (f.settings.override env).normalize where
  socketPath := prevails_text_iff.mpr rfl
  level := prevails_text_iff.mpr rfl
  logsDir := prevails_place_iff.mpr (congrArg _ Option.or_none.symm)
  defaultVerdict := ⟨_, prevails_code_iff.mpr rfl, DaemonSettings.code_verdict⟩
  outboundQueueDepth := ⟨_, prevails_size_iff.mpr rfl, rfl⟩
  inboundQueueDepth := rfl
  settledTokenCapacity := rfl
  maxMessageLen := rfl
  jsonConsole := rfl

namespace InForce

variable (h : InForce env f s) (h' : InForce env f s')

include h h'

theorem daemon_unique : s.daemon = s'.daemon := by
  obtain ⟨code, hcode, hverdict⟩ := h.defaultVerdict
  obtain ⟨code', hcode', hverdict'⟩ := h'.defaultVerdict
  obtain ⟨n, hn, hdepth⟩ := h.outboundQueueDepth
  obtain ⟨n', hn', hdepth'⟩ := h'.outboundQueueDepth
  have hcodes : code = code' :=
    (prevails_code_iff.mp hcode).symm.trans (prevails_code_iff.mp hcode')
  have hsizes : n = n' := (prevails_size_iff.mp hn).symm.trans (prevails_size_iff.mp hn')
  rw [DaemonSettings.mk.injEq]
  refine ⟨?_, ?_, ?_, ?_, ?_, ?_⟩
  · exact (prevails_text_iff.mp h.socketPath).symm.trans (prevails_text_iff.mp h'.socketPath)
  · rw [hdepth, hdepth', hsizes]
  · rw [h.inboundQueueDepth, h'.inboundQueueDepth]
  · rw [h.settledTokenCapacity, h'.settledTokenCapacity]
  · rw [hverdict, hverdict', hcodes]
  · rw [h.maxMessageLen, h'.maxMessageLen]

theorem logging_unique : s.logging = s'.logging := by
  rw [LoggingSettings.mk.injEq]
  refine ⟨?_, ?_, ?_⟩
  · exact (prevails_text_iff.mp h.level).symm.trans (prevails_text_iff.mp h'.level)
  · exact (prevails_place_iff.mp h.logsDir).symm.trans (prevails_place_iff.mp h'.logsDir)
  · rw [h.jsonConsole, h'.jsonConsole]

theorem unique : s = s' := by
  rw [Settings.mk.injEq]
  exact ⟨h.daemon_unique h', h.logging_unique h'⟩

end InForce

theorem inForce_iff : InForce env f s ↔ (f.settings.override env).normalize = s := by
  constructor
  · exact inForce_normalize.unique
  · rintro rfl
    exact inForce_normalize

theorem bound_getD_bound {α : Type} (bound : α → α) (hbound : ∀ v, bound (bound v) = bound v)
    (entry : Option α) (v : α) : bound (entry.getD (bound v)) = bound (entry.getD v) := by
  cases entry with
  | some => rfl
  | none => exact hbound v

theorem normalize_override_normalize :
    (s.normalize.override env).normalize = (s.override env).normalize := by
  have hdepth (n : Nat) : max (max n 1) 1 = max n 1 := Nat.max_eq_left (Nat.le_max_right _ _)
  have hlen (n : Nat) : max 12 (min (max 12 (min n 100000)) 100000) = max 12 (min n 100000) :=
    DaemonSettings.clamp_of_le (Nat.le_max_left _ _)
      (Nat.max_le.mpr ⟨by decide, Nat.min_le_right _ _⟩)
  have hcode (code : Int32) : ((Verdict.ofCode? ((Verdict.ofCode? code).getD .noDecision).code).getD
      .noDecision).code = ((Verdict.ofCode? code).getD .noDecision).code := by
    rw [Verdict.ofCode?_code, Option.getD_some]
  rw [Settings.mk.injEq]
  refine ⟨?_, rfl⟩
  rw [DaemonSettings.mk.injEq]
  refine ⟨rfl, ?_, hdepth _, rfl, ?_, hlen _⟩
  · exact bound_getD_bound (max · 1) hdepth _ _
  · exact bound_getD_bound (fun code => ((Verdict.ofCode? code).getD .noDecision).code) hcode _ _

variable {parse : String → Option SettingsFile}

/-- The file that the source amounts to; without one, nothing is set. -/
inductive Gives (parse : String → Option SettingsFile) : SettingsSource → SettingsFile → Prop where
  | absent : Gives parse .absent .empty
  | text {content} {f : SettingsFile} (h : parse content = some f) : Gives parse (.text content) f

/-- Settings as they are handed out, under an environment or from a text alone. -/
inductive Returned (parse : String → Option SettingsFile) : Settings → Prop where
  | load {path source} {env : Environment} {s : Settings}
      (h : load path source env parse = .ok s) : Returned parse s
  | ofText {text} {s : Settings} (h : ofText text parse = .ok s) : Returned parse s

section Returns

variable {path text : String} {source : SettingsSource}

theorem ofText_of_parse (h : parse text = some f) :
    ofText text parse = .ok f.settings.normalize := by
  rw [ofText, h]

theorem parse_of_ofText (h : ofText text parse = .ok s) : ∃ f, parse text = some f := by
  unfold ofText at h
  split at h
  · exact ⟨_, ‹_›⟩
  · cases h

theorem load_of_gives (h : Gives parse source f) :
    load path source env parse = .ok (f.settings.override env).normalize := by
  cases h with
  | absent => rfl
  | text h =>
    rw [load, ofSource, ofText_of_parse h, ← normalize_override_normalize]
    rfl

theorem gives_of_load (h : load path source env parse = .ok s) : ∃ f, Gives parse source f := by
  cases source with
  | absent => exact ⟨_, .absent⟩
  | unreadable => cases h
  | text content =>
    cases hread : ofText content parse with
    | ok read =>
      obtain ⟨f, hf⟩ := parse_of_ofText hread
      exact ⟨f, .text hf⟩
    | error e =>
      rw [load, ofSource, hread] at h
      cases h

theorem ofText_eq_ok : ofText text parse = .ok s ↔
    ∃ f, parse text = some f ∧ InForce (fun _ => none) f s := by
  constructor
  · intro h
    obtain ⟨f, hf⟩ := parse_of_ofText h
    rw [ofText_of_parse hf, Except.ok.injEq] at h
    exact ⟨f, hf, inForce_iff.mpr h⟩
  · rintro ⟨f, hf, hforce⟩
    rw [ofText_of_parse hf, ← inForce_iff.mp hforce]
    rfl

theorem load_eq_ok :
    load path source env parse = .ok s ↔ ∃ f, Gives parse source f ∧ InForce env f s := by
  constructor
  · intro h
    obtain ⟨f, hf⟩ := gives_of_load h
    rw [load_of_gives hf, Except.ok.injEq] at h
    exact ⟨f, hf, inForce_iff.mpr h⟩
  · rintro ⟨f, hf, hforce⟩
    rw [load_of_gives hf, inForce_iff.mp hforce]

theorem Returned.inRange (h : Returned parse s) : s.daemon.InRange := by
  cases h with
  | load h =>
    obtain ⟨f, -, hforce⟩ := load_eq_ok.mp h
    exact inForce_iff.mp hforce ▸ DaemonSettings.inRange_normalize
  | ofText h =>
    obtain ⟨f, -, hforce⟩ := ofText_eq_ok.mp h
    exact inForce_iff.mp hforce ▸ DaemonSettings.inRange_normalize

theorem Returned.normalize (h : Returned parse s) : s.normalize = s := by
  rw [Settings.normalize, DaemonSettings.normalize_of_inRange h.inRange]

end Returns

/-- The settings follow from the sources, and what is handed out stays as it is. -/
structure Precedence (parse : String → Option SettingsFile) : Prop where
  determined (env : Environment) (f : SettingsFile) : ∃! s, InForce env f s
  load {path : String} {source : SettingsSource} {env : Environment} {s : Settings} :
    load path source env parse = .ok s ↔ ∃ f, Gives parse source f ∧ InForce env f s
  ofText {text : String} {s : Settings} : ofText text parse = .ok s ↔
    ∃ f, parse text = some f ∧ InForce (fun _ => none) f s
  /-- The settings of a file may be brought within bounds before the environment is looked at. -/
  early {env : Environment} {s : Settings} :
    (s.normalize.override env).normalize = (s.override env).normalize
  inRange {s : Settings} : Returned parse s → s.daemon.InRange
  normalize {s : Settings} : Returned parse s → s.normalize = s

theorem precedence (parse : String → Option SettingsFile) : Precedence parse where
  determined _ _ := ⟨_, inForce_normalize, fun _ h => (inForce_iff.mp h).symm⟩
  load := load_eq_ok
  ofText := ofText_eq_ok
  early := normalize_override_normalize
  inRange := Returned.inRange
  normalize := Returned.normalize

end Settings

end Arbiter
