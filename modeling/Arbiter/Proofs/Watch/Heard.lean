import Arbiter.Proofs.Client.Negotiation
import Arbiter.Watch.Basic

/-!
What a watch hears: the messages of its stream, up to the one at which it ends. The acceptance of
its version is the first reply without an error, after the greeting, under the token of the
selection; the asks that are heard after it are those to answer.
-/

namespace Arbiter

def Message.said? (m : Message) : Option Content :=
  match m.check with
  | .error _ => none
  | .ok _ => m.decode.toOption

def Message.isGreeting (m : Message) : Bool :=
  match m.said? with
  | some (.hello _ _) => true
  | _ => false

def Message.accepts (token : UInt64) (m : Message) : Bool :=
  match m.said? with
  | some (.reply token' _ error) => token' = token ∧ error = 0
  | _ => false

def Message.ask? (m : Message) : Option UInt64 :=
  match m.said? with
  | some (.event e) => if e.needsVerdict then some e.token else none
  | _ => none

def Message.isOutcome (m : Message) : Bool :=
  match m.said? with
  | some (.outcome _ _ _ _) => true
  | _ => false

section Message

variable {m : Message} {content : Content}

theorem Message.said?_of_malformed {fault : Fault} (h : m.check = .error fault) :
    m.said? = none := by
  rw [said?, h]

theorem Message.said?_of_decode (hcheck : m.check = .ok ()) (hm : m.decode = .ok content) :
    m.said? = some content := by
  rw [said?, hcheck, hm]
  rfl

theorem Message.isGreeting_iff : m.isGreeting = true ↔ ∃ g, m.greeting? = some g := by
  simp only [isGreeting, said?, greeting?]
  cases m.check with
  | error fault => simp
  | ok =>
    cases m.decode with
    | error fault => simp [Except.toOption]
    | ok content => cases content <;> simp [Except.toOption]

theorem Message.ask?_of_event {e : Event} (h : m.said? = some (.event e)) :
    m.ask? = if e.needsVerdict then some e.token else none := by
  rw [ask?, h]

theorem Message.accepts_of_ask {asked : UInt64} (h : m.ask? = some asked) (token : UInt64) :
    m.accepts token = false := by
  unfold ask? at h
  split at h
  · rename_i hsaid
    rw [accepts, hsaid]
  · cases h

end Message

namespace Watch

def following (kind : Message → Bool) (ms : List Message) : List Message :=
  (ms.dropWhile fun m => !kind m).tail

theorem following_snoc (kind : Message → Bool) (ms : List Message) (m : Message) :
    following kind (ms ++ [m]) = if ms.any kind then following kind ms ++ [m] else [] := by
  induction ms with
  | nil => cases hm : kind m <;> simp [following, hm]
  | cons m' ms ih =>
    cases hm' : kind m' with
    | true => simp [following, hm']
    | false => simpa [following, hm'] using ih

def Accepted (token : UInt64) (heard : List Message) : Prop :=
  ((following Message.isGreeting heard).any (Message.accepts token)) = true

def sinceAcceptance (token : UInt64) (heard : List Message) : List Message :=
  following (Message.accepts token) (following Message.isGreeting heard)

section Acceptance

variable {token : UInt64} {heard : List Message} {m : Message}

theorem following_of_none {kind : Message → Bool} (h : heard.any kind = false) :
    following kind heard = [] := by
  have hall : heard.dropWhile (fun m => !kind m) = [] := by
    rw [List.dropWhile_eq_nil_iff]
    intro m hm
    rw [List.any_eq_false] at h
    simpa using h m hm
  rw [following, hall, List.tail_nil]

theorem accepted_snoc : Accepted token (heard ++ [m]) ↔
    Accepted token heard ∨ heard.any Message.isGreeting = true ∧ m.accepts token = true := by
  unfold Accepted
  rw [following_snoc]
  cases hgreeting : heard.any Message.isGreeting with
  | true => simp
  | false => simp [following_of_none hgreeting]

theorem accepted_snoc_of_not (h : m.accepts token = false) :
    Accepted token (heard ++ [m]) ↔ Accepted token heard := by
  simp [accepted_snoc, h]

theorem not_accepted (h : heard.any Message.isGreeting = false) : ¬Accepted token heard := by
  rw [Accepted, following_of_none h]
  exact Bool.false_ne_true

theorem sinceAcceptance_snoc (h : Accepted token heard) :
    sinceAcceptance token (heard ++ [m]) = sinceAcceptance token heard ++ [m] := by
  unfold sinceAcceptance
  unfold Accepted at h
  rw [following_snoc]
  cases hgreeting : heard.any Message.isGreeting with
  | true => rw [if_pos rfl, following_snoc, if_pos h]
  | false => simp [following_of_none hgreeting] at h

theorem sinceAcceptance_snoc_of_not (h : ¬Accepted token heard) :
    sinceAcceptance token (heard ++ [m]) = [] := by
  -- Even the message that accepts the version is not after the acceptance.
  unfold sinceAcceptance
  unfold Accepted at h
  rw [following_snoc]
  cases heard.any Message.isGreeting with
  | true => rw [if_pos rfl, following_snoc, if_neg h]
  | false => rfl

theorem sinceAcceptance_of_not (h : ¬Accepted token heard) : sinceAcceptance token heard = [] :=
  following_of_none (Bool.not_eq_true _ ▸ h)

end Acceptance

def after (w : Watch) (ms : List Message) : Watch := ms.foldl receive w

def heard (w : Watch) : List Message → List Message
  | [] => []
  | m :: ms =>
    match w.ended with
    | some _ => []
    | none => m :: (w.receive m).heard ms

variable {w : Watch} {m : Message}

theorem receive_of_ended {ending : WatchEnd} (h : w.ended = some ending) : w.receive m = w := by
  rw [receive, h]

theorem after_of_ended {ending : WatchEnd} (h : w.ended = some ending) (ms : List Message) :
    w.after ms = w := by
  induction ms with
  | nil => rfl
  | cons m ms ih => rw [after, List.foldl_cons, receive_of_ended h, ← after, ih]

theorem after_snoc (w : Watch) (ms : List Message) (m : Message) :
    w.after (ms ++ [m]) = (w.after ms).receive m :=
  List.foldl_append

theorem heard_of_ended {ending : WatchEnd} (h : w.ended = some ending) (ms : List Message) :
    w.heard ms = [] := by
  cases ms with
  | nil => rfl
  | cons m ms => rw [heard, h]

theorem heard_append (w : Watch) (ms ms' : List Message) :
    w.heard (ms ++ ms') = w.heard ms ++ (w.after ms).heard ms' := by
  induction ms generalizing w with
  | nil => rfl
  | cons m ms ih =>
    cases hended : w.ended with
    | some ending =>
      rw [after_of_ended hended, heard_of_ended hended, heard_of_ended hended,
        heard_of_ended hended]
      rfl
    | none =>
      simp only [List.cons_append, heard, hended, ih]
      rfl

theorem heard_snoc_of_ended {ms : List Message} {ending : WatchEnd}
    (h : (w.after ms).ended = some ending) : w.heard (ms ++ [m]) = w.heard ms := by
  rw [heard_append, heard_of_ended h, List.append_nil]

theorem heard_snoc {ms : List Message} (h : (w.after ms).ended = none) :
    w.heard (ms ++ [m]) = w.heard ms ++ [m] := by
  rw [heard_append, heard, h]
  rfl

end Watch

end Arbiter
