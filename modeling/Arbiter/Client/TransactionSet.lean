import Arbiter.Client.Transaction

/-!
Transactions under way, in the order in which they were begun. A message goes to the first that
wants it.
-/

namespace Arbiter

structure TransactionSet (η φ : Type) where
  items : List (Transaction η φ)

inductive Delivery (η φ : Type) where
  | unmatched (m : Message)
  | pending
  | finished (handedBack : Option (Transaction η φ))

namespace TransactionSet

variable {η φ : Type}

def empty : TransactionSet η φ := ⟨[]⟩

def insert (s : TransactionSet η φ) (t : Transaction η φ) : TransactionSet η φ := ⟨s.items ++ [t]⟩

def size (s : TransactionSet η φ) : Nat := s.items.length

def isEmpty (s : TransactionSet η φ) : Bool := s.items.isEmpty

/-- A message without a token is routed as if its token were zero. -/
def position? (s : TransactionSet η φ) (m : Message) (isSelf : Bool) : Option Nat := do
  let opcode ← m.opcode?
  s.items.findIdx? (·.wants (m.token?.getD 0) isSelf opcode)

/-- The place and the transaction to which a message would go. -/
def route? (s : TransactionSet η φ) (m : Message) (isSelf : Bool) :
    Option (Nat × Transaction η φ) := do
  let i ← s.position? m isSelf
  return (i, ← s.items[i]?)

/-- A transaction is back in its place after a message; one that finished leaves if it is to be
handed back or dropped. -/
def settle (s : TransactionSet η φ) (i : Nat) (t : Transaction η φ) :
    Delivery η φ × TransactionSet η φ :=
  if t.isActive then (.pending, ⟨s.items.set i t⟩)
  else if t.flags.dequeue then (.finished (some t), ⟨s.items.eraseIdx i⟩)
  else if t.flags.destroy then (.finished none, ⟨s.items.eraseIdx i⟩)
  else (.finished none, ⟨s.items.set i t⟩)

/-- What became of a message, and who was shown the transaction it finished. -/
structure Delivered (η φ : Type) where
  delivery : Delivery η φ
  told : Option (φ × Transaction η φ)
  set : TransactionSet η φ

def deliver (r : Reactor η) (s : TransactionSet η φ) (m : Message) (isSelf : Bool) :
    Delivered η φ :=
  match s.route? m isSelf with
  | none => ⟨.unmatched m, none, s⟩
  | some (i, t) =>
    match t.process r m with
    | .error _ => ⟨.pending, none, s⟩
    | .ok p =>
      let (delivery, s) := s.settle i p.transaction
      ⟨delivery, p.told.map (·, p.transaction), s⟩

def takeFinished (s : TransactionSet η φ) : List (Transaction η φ) × TransactionSet η φ :=
  let (active, finished) := s.items.partition (·.isActive)
  (finished, ⟨active⟩)

end TransactionSet

end Arbiter
