import Arbiter.Message.Decode

/-!
Exchanges of several messages under one token. A transaction waits for a message of its token, its
direction and an opcode it accepts; a hook may then advance it to its next stage or finish it. The
hook is a machine of its own: it may keep a state `η` and do any steps. Whoever waits for the
transaction, named by `φ`, is told once, by the message that finished it.
-/

namespace Arbiter

structure TransactionFlags where
  initSelf : Bool
  initPeer : Bool
  retainAll : Bool
  retainFinal : Bool
  dequeue : Bool
  destroy : Bool
deriving DecidableEq, Repr

inductive TransactionError where
  | conflictingDirections
  | conflictingRetention
  | noDirection
  | finished (token : UInt64)
deriving DecidableEq, Repr

namespace TransactionError

/-- The name of the cause without its particulars. -/
def label : TransactionError → String
  | conflictingDirections => "ConflictingFlags"
  | conflictingRetention => "ConflictingFlags"
  | noDirection => "NoDirection"
  | finished _ => "Finished"

def text : TransactionError → String
  | conflictingDirections => "conflicting transaction flags Flags(3)"
  | conflictingRetention => "conflicting transaction flags Flags(12)"
  | noDirection => "transaction flags name no direction"
  | finished token => "transaction " ++ Hex.number 0 token.toNat ++ " already finished"

end TransactionError

inductive TransactionState where
  | active (stage : Nat)
  | done (code : Int32)
deriving DecidableEq, Repr

inductive TransactionStep where
  | progress (opcodes : List UInt32)
  | done (code : Int32)
deriving DecidableEq

/-- What hooks do: given a hook's state, the stage and the message, steps and a new state. -/
structure Reactor (η : Type) where
  react : η → Nat → Message → List TransactionStep × η

structure Transaction (η φ : Type) where
  token : UInt64
  flags : TransactionFlags
  accepted : List UInt32
  state : TransactionState
  hook : Option η
  waiter : Option φ
  retained : List Message

namespace Transaction

variable {η φ : Type}

/-- Stages are counted in thirty-two bits and stay at the last of them. -/
def lastStage : Nat := UInt32.size - 1

def create (token : UInt64) (flags : TransactionFlags) (accepted : List UInt32) (hook : Option η)
    (waiter : Option φ) : Except TransactionError (Transaction η φ) :=
  if flags.initSelf && flags.initPeer then .error .conflictingDirections
  else if flags.retainAll && flags.retainFinal then .error .conflictingRetention
  else if !flags.initSelf && !flags.initPeer then .error .noDirection
  else .ok ⟨token, flags, accepted, .active 0, hook, waiter, []⟩

def isActive (t : Transaction η φ) : Bool :=
  match t.state with
  | .active _ => true
  | .done _ => false

def stage? (t : Transaction η φ) : Option Nat :=
  match t.state with
  | .active stage => some stage
  | .done _ => none

def result? (t : Transaction η φ) : Option Int32 :=
  match t.state with
  | .active _ => none
  | .done code => some code

def directionFits (t : Transaction η φ) (isSelf : Bool) : Bool :=
  if isSelf then t.flags.initSelf else t.flags.initPeer

def wants (t : Transaction η φ) (token : UInt64) (isSelf : Bool) (opcode : UInt32) : Bool :=
  t.isActive && t.token == token && t.directionFits isSelf && t.accepted.contains opcode

def progress (t : Transaction η φ) (opcodes : List UInt32) : Transaction η φ :=
  match t.state with
  | .active stage => { t with state := .active (min (stage + 1) lastStage), accepted := opcodes }
  | .done _ => t

/-- The first code stays. -/
def done (t : Transaction η φ) (code : Int32) : Transaction η φ :=
  match t.state with
  | .active _ => { t with state := .done code }
  | .done _ => t

def perform (t : Transaction η φ) : TransactionStep → Transaction η φ
  | .progress opcodes => t.progress opcodes
  | .done code => t.done code

def retain (t : Transaction η φ) (m : Message) : Transaction η φ :=
  if t.flags.retainAll then { t with retained := t.retained ++ [m] }
  else if t.flags.retainFinal then { t with retained := [m] }
  else t

/-- A transaction after a message, and who is told that it finished. -/
structure Processed (η φ : Type) where
  transaction : Transaction η φ
  told : Option φ

/-- The hook runs, or without one the first message finishes with code zero. -/
def react (r : Reactor η) (t : Transaction η φ) (stage : Nat) (m : Message) : Transaction η φ :=
  match t.hook with
  | none => t.done 0
  | some hook =>
    let (steps, hook) := r.react hook stage m
    steps.foldl perform { t with hook := some hook }

def process (r : Reactor η) (t : Transaction η φ) (m : Message) :
    Except TransactionError (Processed η φ) :=
  match t.state with
  | .done _ => .error (.finished t.token)
  | .active stage =>
    let t := (t.react r stage m).retain m
    if t.isActive then .ok ⟨t, none⟩ else .ok ⟨{ t with waiter := none }, t.waiter⟩

end Transaction

end Arbiter
