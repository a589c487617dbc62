import Arbiter.Filter
import Arbiter.Text.Decimal
import Arbiter.Verdict
import Arbiter.Word

/-!
What a watch is told on its command line: the socket, the filter it subscribes to, and how it
answers. Each option is given at most once, with its value after an equals sign or as the next word.
-/

namespace Arbiter

structure WatchOptions where
  socket : String
  filter : Filter
  verdict : Verdict
  delegate : Bool
  once : Bool

inductive WatchUsage where
  /-- Words that are no options of a watch. -/
  | unreadable
  | negativeVerdict
deriving DecidableEq, Repr

/-- The options read so far; those not given have their defaults at the end. -/
structure WatchArguments where
  socket : Option String
  uid : Option UInt32
  rule : Option UInt32
  subsystem : Option UInt32
  verdict : Option Int32
  delegate : Bool
  once : Bool
deriving DecidableEq

namespace WatchArguments

def empty : WatchArguments := ⟨none, none, none, none, none, false, false⟩

def id? (text : String) : Option UInt32 := (Decimal.int? text).bind Word.uint32?

def code? (text : String) : Option Int32 := (Decimal.int? text).bind Word.int32?

/-- An option set to a value; none if it was set before. -/
def once? {α : Type} (old new : Option α) (set : Option α → WatchArguments) :
    Option WatchArguments :=
  if old.isSome ∨ new.isNone then none else some (set new)

def setOption? (a : WatchArguments) (name value : String) : Option WatchArguments :=
  match name with
  | "--socket" =>
    once? a.socket (if value.isEmpty then none else some value) fun v => { a with socket := v }
  | "--uid" => once? a.uid (id? value) fun v => { a with uid := v }
  | "--rule" => once? a.rule (id? value) fun v => { a with rule := v }
  | "--subsystem" => once? a.subsystem (id? value) fun v => { a with subsystem := v }
  | "--verdict" => once? a.verdict (code? value) fun v => { a with verdict := v }
  | _ => none

def setFlag? (a : WatchArguments) (name : String) : Option WatchArguments :=
  match name with
  | "--delegate" => if a.delegate then none else some { a with delegate := true }
  | "--once" => if a.once then none else some { a with once := true }
  | _ => none

def isFlag (name : String) : Bool := name = "--delegate" ∨ name = "--once"

/-- A word that may be the value of the option before it. -/
def isValue (word : String) : Bool := word = "-" ∨ word.toList.head? ≠ some '-'

/-- An option word cut at its first equals sign. -/
def cut (word : String) : String × Option String :=
  let name := word.toList.takeWhile (· ≠ '=')
  match word.toList.dropWhile (· ≠ '=') with
  | [] => (word, none)
  | _ :: value => (String.ofList name, some (String.ofList value))

def parse? (a : WatchArguments) : List String → Option WatchArguments
  | [] => some a
  | "--" :: rest => if rest.isEmpty then some a else none
  | word :: rest =>
    match cut word with
    | (name, some value) => (a.setOption? name value).bind fun a => parse? a rest
    | (name, none) =>
      if isFlag name then (a.setFlag? name).bind fun a => parse? a rest
      else
        match rest with
        | value :: rest =>
          if isValue value then (a.setOption? name value).bind fun a => parse? a rest else none
        | [] => none

end WatchArguments

namespace WatchOptions

def defaultSocket : String := "/run/warden/warden.sock"

def ofArguments (words : List String) : Except WatchUsage WatchOptions :=
  match WatchArguments.empty.parse? words with
  | none => .error .unreadable
  | some a =>
    match Verdict.ofCode? (a.verdict.getD 0) with
    | none => .error .negativeVerdict
    | some verdict => .ok {
        socket := a.socket.getD defaultSocket
        filter := ⟨a.uid.getD 0, a.rule.getD 0, a.subsystem.getD 0⟩
        verdict
        delegate := a.delegate
        once := a.once }

end WatchOptions

end Arbiter
