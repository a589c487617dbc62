/-!
What a session subscribes to and what an event is about: a user, a rule and a subsystem. In a
subscription zero stands for any value, except that events of the status subsystem reach only
subscriptions to that subsystem.
-/

namespace Arbiter

structure Filter where
  uid : UInt32
  ruleId : UInt32
  subsystem : UInt32
deriving DecidableEq, Repr, Inhabited

namespace Filter

def statusSubsystem : UInt32 := 0xff

def fieldMatches (wanted actual : UInt32) : Bool := wanted == 0 || wanted == actual

def selects (filter key : Filter) : Bool :=
  if key.subsystem = statusSubsystem then
    filter.subsystem == statusSubsystem
  else
    fieldMatches filter.uid key.uid && fieldMatches filter.ruleId key.ruleId &&
      fieldMatches filter.subsystem key.subsystem

def text (f : Filter) : String :=
  s!"Filter \x7b uid: {f.uid}, rule_id: {f.ruleId}, subsystem: {f.subsystem} \x7d"

end Filter

end Arbiter
