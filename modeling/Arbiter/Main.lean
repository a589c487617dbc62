import Arbiter.Command

/-!
The command line. Captures and settings are read from files; a daemon and a watch speak over
standard input and output, so that a relay can put a socket there.
-/

open Arbiter

namespace Arbiter.Main

def usage : String :=
  "usage: arbiter verify FILE | check-config | start [--socket PATH] | watch [OPTIONS]"

def complain (text : String) : IO Unit := IO.eprintln ("Error: " ++ text)

def environment : IO Settings.Environment := do
  let values ← Settings.variableNames.mapM fun name => return (name, ← IO.getEnv name)
  return fun name => (values.lookup name).join

def sourceAt (path : String) : IO SettingsSource := do
  try
    return .text (← IO.FS.readFile path)
  catch
    | .noFileOrDirectory .. => return .absent
    | _ => return .unreadable

def report (o : Outcome) : IO UInt32 := do
  o.lines.forM IO.println
  return o.exit.toUInt32

def verify (file : String) : IO UInt32 := do
  try
    report (.verify (some (← IO.FS.readBinFile file).toList))
  catch _ =>
    complain ("failed to read " ++ file)
    report (.verify none)

def writeAll (output : IO.FS.Stream) (messages : List Message) : IO Unit := do
  messages.forM fun m => output.write ⟨m.bytes⟩
  output.flush

partial def serve (input output : IO.FS.Stream) (channel : ChannelId) (h : Hub Unit) : IO Unit := do
  let (log, h) := h.takeLog
  writeAll output (Hub.received log channel)
  if h.isOpen channel then
    let bytes ← input.read 65536
    if bytes.isEmpty then return
    serve input output channel (h.receive channel bytes.toList)

/-- The process at the other end of a relay is trusted like root. -/
def start (socket : Option String) : IO UInt32 := do
  let env ← environment
  let path := Settings.pathIn env
  let launch := Launch.start (Settings.load path (← sourceAt path) env) socket fun _ => true
  match launch with
  | .noSettings e => complain e.text
  | .noSocket s => complain ("failed to bind " ++ s.daemon.socketPath)
  | .noQueue s => complain s!"no queue can be made {s.daemon.outboundQueueDepth} deep"
  | .serving s =>
    let (channel, h) := (Hub.new s.daemon : Hub Unit).connect 0
    serve (← IO.getStdin) (← IO.getStdout) channel h
  return launch.exit.toUInt32

/-- What the watch printed goes to standard error, for its messages go to standard output. -/
partial def follow (input output : IO.FS.Stream) (w : Watch) : IO UInt32 := do
  match w.ended with
  | some .finished => return 0
  | some (.failed e) =>
    complain e.text
    return 1
  | none =>
    let bytes ← input.read 65536
    let next := if bytes.isEmpty then w.readEnd else w.read bytes.toList
    writeAll output (next.sent.drop w.sent.length)
    (next.printed.drop w.printed.length).forM IO.eprintln
    follow input output next

def watch (words : List String) : IO UInt32 := do
  match WatchOptions.ofArguments words with
  | .error .unreadable =>
    IO.eprintln usage
    return 2
  | .error .negativeVerdict =>
    complain "verdict must not be negative"
    return 1
  | .ok options =>
    let first ← IO.rand 1 (UInt64.size / 4)
    follow (← IO.getStdin) (← IO.getStdout) (.new options (UInt64.ofNat first))

def run : List String → IO UInt32
  | ["verify", file] => verify file
  | ["check-config"] => do
    let env ← environment
    let path := Settings.pathIn env
    report (.checkSettings path (← sourceAt path) env)
  | ["start"] => start none
  | ["start", "--socket", path] => start (some path)
  | "watch" :: words => watch words
  | _ => do
    IO.eprintln usage
    return 2

end Arbiter.Main

def main (args : List String) : IO UInt32 := Arbiter.Main.run args
