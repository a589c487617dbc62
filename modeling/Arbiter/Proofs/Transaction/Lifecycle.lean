import Mathlib.Data.List.Induction
import Arbiter.Client.Transaction

/-!
The life of a transaction, from its creation on. Hooks and owners do the same two things to it: they
advance it and they finish it. All that was ever done to it, in order, says where it stands, and the
messages it took say what it keeps; who waits for it is told by the message whose hook finished it,
and by nothing else.
-/

namespace Arbiter

namespace TransactionStep

def advances : List TransactionStep → List (List UInt32)
  | [] => []
  | .done _ :: _ => []
  | .progress opcodes :: steps => opcodes :: advances steps

def code? : List TransactionStep → Option Int32
  | [] => none
  | .done code :: _ => some code
  | .progress _ :: steps => code? steps

variable (steps steps' : List TransactionStep)

theorem code?_append : code? (steps ++ steps') = (code? steps).or (code? steps') := by
  induction steps with
  | nil => rfl
  | cons step steps ih =>
    cases step with
    | progress opcodes => exact ih
    | done code => rfl

theorem advances_append : advances (steps ++ steps') =
    advances steps ++ if (code? steps).isSome then [] else advances steps' := by
  induction steps with
  | nil => rfl
  | cons step steps ih =>
    cases step with
    | progress opcodes => exact congrArg (opcodes :: ·) ih
    | done code => rfl

theorem code?_eq_none : code? steps = none ↔ ¬∃ code, .done code ∈ steps := by
  induction steps with
  | nil => simp [code?]
  | cons step steps ih =>
    cases step with
    | progress opcodes => simpa [code?] using ih
    | done code => exact iff_of_false nofun fun h => h ⟨code, List.mem_cons_self⟩

def stateAfter : TransactionState :=
  match code? steps with
  | some code => .done code
  | none => .active (min (advances steps).length Transaction.lastStage)

theorem stateAfter_eq_active {steps : List TransactionStep} {stage : Nat} :
    stateAfter steps = .active stage ↔
      code? steps = none ∧ min (advances steps).length Transaction.lastStage = stage := by
  rw [stateAfter]
  cases code? steps <;> simp

theorem stage_le_of_append {steps steps' : List TransactionStep} {stage stage' : Nat}
    (h : stateAfter steps = .active stage) (h' : stateAfter (steps ++ steps') = .active stage') :
    stage ≤ stage' := by
  obtain ⟨-, rfl⟩ := stateAfter_eq_active.mp h
  obtain ⟨-, rfl⟩ := stateAfter_eq_active.mp h'
  rw [advances_append, List.length_append]
  omega

def acceptedAfter (accepted : List UInt32) : List UInt32 := (advances steps).getLast?.getD accepted

end TransactionStep

open TransactionStep

def TransactionFlags.kept (f : TransactionFlags) (messages : List Message) : List Message :=
  if f.retainAll then messages else if f.retainFinal then messages.getLast?.toList else []

theorem TransactionFlags.kept_snoc (f : TransactionFlags) (messages : List Message) (m : Message) :
    f.kept (messages ++ [m]) =
      if f.retainAll then f.kept messages ++ [m]
      else if f.retainFinal then [m]
      else f.kept messages := by
  unfold kept
  cases f.retainAll <;> cases f.retainFinal <;> simp

inductive TransactionCall where
  | process (m : Message)
  | progress (opcodes : List UInt32)
  | done (code : Int32)

/-- A call: what it gave back, if it gives anything back, what was done to the transaction in it,
and the transaction that it left. -/
structure TransactionTurn (η φ : Type) where
  call : TransactionCall
  result : Option (Except TransactionError (Transaction.Processed η φ))
  steps : List TransactionStep
  after : Transaction η φ

namespace TransactionTurn

variable {η φ : Type}

def finishes (turn : TransactionTurn η φ) : Bool :=
  match turn.result with
  | some (.ok p) => !p.transaction.isActive
  | _ => false

def told (turn : TransactionTurn η φ) : Option (φ × Transaction η φ) :=
  match turn.result with
  | some (.ok p) => p.told.map (·, p.transaction)
  | _ => none

def message? (turn : TransactionTurn η φ) : Option Message :=
  match turn.call, turn.result with
  | .process m, some (.ok _) => some m
  | _, _ => none

end TransactionTurn

section Turns

variable {η φ : Type} (turns : List (TransactionTurn η φ))

def stepsIn : List TransactionStep := turns.flatMap TransactionTurn.steps

def messagesIn : List Message := turns.filterMap TransactionTurn.message?

end Turns

namespace Transaction

variable {η φ : Type} (r : Reactor η) (t : Transaction η φ)

def hookSteps (m : Message) : List TransactionStep :=
  match t.state, t.hook with
  | .done _, _ => []
  | .active _, none => [.done 0]
  | .active stage, some hook => (r.react hook stage m).1

def turn (call : TransactionCall) : TransactionTurn η φ :=
  match call with
  | .process m =>
    match t.process r m with
    | .ok p => ⟨call, some (.ok p), t.hookSteps r m, p.transaction⟩
    | .error e => ⟨call, some (.error e), [], t⟩
  | .progress opcodes => ⟨call, none, [.progress opcodes], t.progress opcodes⟩
  | .done code => ⟨call, none, [.done code], t.done code⟩

def run (calls : List TransactionCall) : Transaction η φ :=
  calls.foldl (fun t call => (t.turn r call).after) t

def history : Transaction η φ → List TransactionCall → List (TransactionTurn η φ)
  | _, [] => []
  | t, call :: calls => t.turn r call :: history (t.turn r call).after calls

theorem run_append (calls calls' : List TransactionCall) :
    t.run r (calls ++ calls') = (t.run r calls).run r calls' :=
  List.foldl_append

theorem history_append (calls calls' : List TransactionCall) :
    t.history r (calls ++ calls') = t.history r calls ++ (t.run r calls).history r calls' := by
  induction calls generalizing t with
  | nil => rfl
  | cons call calls ih => exact congrArg (t.turn r call :: ·) (ih (t.turn r call).after)

end Transaction

def TransactionState.next : TransactionState → TransactionStep → TransactionState
  | .active stage, .progress _ => .active (min (stage + 1) Transaction.lastStage)
  | .active _, .done code => .done code
  | .done code, _ => .done code

theorem TransactionStep.stateAfter_snoc (steps : List TransactionStep) (step : TransactionStep) :
    stateAfter (steps ++ [step]) = (stateAfter steps).next step := by
  simp only [stateAfter, code?_append, advances_append]
  cases hcode : code? steps with
  | some code => rfl
  | none =>
    cases step with
    | done code => rfl
    | progress opcodes =>
      simp only [code?, Option.or_none, advances, Option.isSome_none, Bool.false_eq_true,
        ↓reduceIte, List.length_append, List.length_singleton, TransactionState.next,
        TransactionState.active.injEq]
      omega

namespace Transaction

variable {η φ : Type} {r : Reactor η} {t t₀ : Transaction η φ} {steps : List TransactionStep}
  {messages : List Message} {step : TransactionStep} {m : Message}

theorem stage?_eq_some {stage : Nat} : t.stage? = some stage ↔ t.state = .active stage := by
  unfold stage?
  cases t.state <;> simp

theorem isActive_eq_true : t.isActive = true ↔ ∃ stage, t.state = .active stage := by
  unfold isActive
  cases t.state <;> simp

theorem perform_of_active {stage : Nat} (h : t.state = .active stage) : t.perform step =
    match step with
    | .progress opcodes =>
      { t with state := .active (min (stage + 1) lastStage), accepted := opcodes }
    | .done code => { t with state := .done code } := by
  cases step <;> simp [perform, progress, done, h]

theorem perform_of_done {code : Int32} (h : t.state = .done code) : t.perform step = t := by
  cases step <;> simp [perform, progress, done, h]

/-- How a transaction came about: what was done to it since its creation, and the messages that it
took. -/
structure Tracks (t₀ : Transaction η φ) (steps : List TransactionStep) (messages : List Message)
    (t : Transaction η φ) : Prop where
  token : t.token = t₀.token
  flags : t.flags = t₀.flags
  state : t.state = stateAfter steps
  accepted : t.accepted = acceptedAfter steps t₀.accepted
  retained : t.retained = t₀.flags.kept messages
  waiter : t.isActive = true → t.waiter = t₀.waiter

namespace Tracks

theorem isActive (h : Tracks t₀ steps messages t) : t.isActive = true ↔ code? steps = none := by
  rw [Transaction.isActive, h.state, stateAfter]
  cases code? steps <;> simp

theorem result? (h : Tracks t₀ steps messages t) : t.result? = code? steps := by
  rw [Transaction.result?, h.state, stateAfter]
  cases code? steps <;> rfl

theorem congr {t' : Transaction η φ} (h : Tracks t₀ steps messages t) (htoken : t'.token = t.token)
    (hflags : t'.flags = t.flags) (hstate : t'.state = t.state)
    (haccepted : t'.accepted = t.accepted) (hretained : t'.retained = t.retained)
    (hwaiter : t'.waiter = t.waiter) : Tracks t₀ steps messages t' where
  token := htoken.trans h.token
  flags := hflags.trans h.flags
  state := hstate.trans h.state
  accepted := haccepted.trans h.accepted
  retained := hretained.trans h.retained
  waiter hactive := by
    rw [Transaction.isActive, hstate] at hactive
    exact hwaiter.trans (h.waiter hactive)

theorem perform (h : Tracks t₀ steps messages t) (step : TransactionStep) :
    Tracks t₀ (steps ++ [step]) messages (t.perform step) := by
  have hstate := stateAfter_snoc steps step
  rw [← h.state] at hstate
  have haccepted := advances_append steps [step]
  cases hcode : code? steps with
  | some code =>
    -- Nothing is done to a finished transaction, and no step counts any more.
    have hdone : t.state = .done code := by rw [h.state, stateAfter, hcode]
    rw [perform_of_done hdone]
    rw [hcode, Option.isSome_some, if_pos rfl, List.append_nil] at haccepted
    rw [hdone] at hstate
    exact { h with
      state := hdone.trans hstate.symm
      accepted := by rw [h.accepted, acceptedAfter, acceptedAfter, haccepted] }
  | none =>
    have hactive : t.state = .active (min (advances steps).length lastStage) := by
      rw [h.state, stateAfter, hcode]
    rw [perform_of_active hactive]
    rw [hcode, Option.isSome_none, if_neg Bool.false_ne_true] at haccepted
    rw [hactive] at hstate
    have hwaiter := h.waiter (isActive_eq_true.mpr ⟨_, hactive⟩)
    cases step with
    | progress opcodes => exact {
        token := h.token
        flags := h.flags
        state := hstate.symm
        accepted := by rw [acceptedAfter, haccepted, advances, advances, List.getLast?_concat]; rfl
        retained := h.retained
        waiter := fun _ => hwaiter }
    | done code => exact {
        token := h.token
        flags := h.flags
        state := hstate.symm
        accepted := by rw [acceptedAfter, haccepted, advances, List.append_nil]; exact h.accepted
        retained := h.retained
        waiter := fun _ => hwaiter }

theorem foldl (h : Tracks t₀ steps messages t) (steps' : List TransactionStep) :
    Tracks t₀ (steps ++ steps') messages (steps'.foldl Transaction.perform t) := by
  induction steps' generalizing steps t with
  | nil => rwa [List.append_nil]
  | cons step steps' ih =>
    have hnext := ih (h.perform step)
    rwa [List.append_assoc] at hnext

theorem react {stage : Nat} (h : Tracks t₀ steps messages t) (hactive : t.state = .active stage)
    (m : Message) : Tracks t₀ (steps ++ t.hookSteps r m) messages (t.react r stage m) := by
  cases hhook : t.hook with
  | none =>
    have hsteps : t.hookSteps r m = [.done 0] := by rw [hookSteps, hactive, hhook]
    rw [hsteps, Transaction.react, hhook]
    exact h.perform (.done 0)
  | some hook =>
    have hsteps : t.hookSteps r m = (r.react hook stage m).1 := by rw [hookSteps, hactive, hhook]
    have hnext : Tracks t₀ steps messages { t with hook := some (r.react hook stage m).2 } :=
      h.congr rfl rfl rfl rfl rfl rfl
    rw [hsteps, Transaction.react, hhook]
    exact hnext.foldl _

theorem retain (h : Tracks t₀ steps messages t) (m : Message) :
    Tracks t₀ steps (messages ++ [m]) (t.retain m) := by
  have hretained := h.retained
  have hkept : t.retain m = { t with retained := t₀.flags.kept (messages ++ [m]) } := by
    rw [TransactionFlags.kept_snoc, ← hretained, ← h.flags, Transaction.retain]
    split <;> [rfl; (split <;> rfl)]
  rw [hkept]
  exact { h with retained := rfl }

end Tracks

theorem perform_keeps (t : Transaction η φ) (step : TransactionStep) :
    (t.perform step).flags = t.flags ∧ (t.perform step).waiter = t.waiter := by
  cases hstate : t.state with
  | active stage => rw [perform_of_active hstate]; cases step <;> exact ⟨rfl, rfl⟩
  | done code => rw [perform_of_done hstate]; exact ⟨rfl, rfl⟩

theorem foldl_perform_keeps (t : Transaction η φ) (steps : List TransactionStep) :
    (steps.foldl perform t).flags = t.flags ∧ (steps.foldl perform t).waiter = t.waiter := by
  induction steps generalizing t with
  | nil => exact ⟨rfl, rfl⟩
  | cons step steps ih =>
    obtain ⟨hflags, hwaiter⟩ := ih (t.perform step)
    obtain ⟨hflags', hwaiter'⟩ := t.perform_keeps step
    exact ⟨hflags.trans hflags', hwaiter.trans hwaiter'⟩

theorem react_keeps (r : Reactor η) (t : Transaction η φ) (stage : Nat) (m : Message) :
    (t.react r stage m).flags = t.flags ∧ (t.react r stage m).waiter = t.waiter := by
  rw [react]
  split
  · exact t.perform_keeps (.done 0)
  · exact foldl_perform_keeps _ _

theorem retain_keeps (t : Transaction η φ) (m : Message) :
    (t.retain m).flags = t.flags ∧ (t.retain m).waiter = t.waiter := by
  rw [retain]
  split <;> [exact ⟨rfl, rfl⟩; (split <;> exact ⟨rfl, rfl⟩)]

theorem process_of_done {code : Int32} (h : t.state = .done code) :
    t.process r m = .error (.finished t.token) := by
  rw [process, h]

theorem process_of_active {stage : Nat} (h : t.state = .active stage) : t.process r m =
    if ((t.react r stage m).retain m).isActive then .ok ⟨(t.react r stage m).retain m, none⟩
    else .ok ⟨{ (t.react r stage m).retain m with waiter := none },
      ((t.react r stage m).retain m).waiter⟩ := by
  rw [process, h]

theorem Tracks.process (h : Tracks t₀ steps messages t) (hactive : t.isActive = true)
    (m : Message) : ∃ p, t.process r m = .ok p ∧
      Tracks t₀ (steps ++ t.hookSteps r m) (messages ++ [m]) p.transaction ∧
      p.told = if p.transaction.isActive then none else t₀.waiter := by
  obtain ⟨stage, hstate⟩ := isActive_eq_true.mp hactive
  have htracks := (h.react (r := r) hstate m).retain m
  have hwaiter : ((t.react r stage m).retain m).waiter = t₀.waiter := by
    rw [(retain_keeps _ m).2, (react_keeps r t stage m).2, h.waiter hactive]
  rw [process_of_active hstate]
  generalize (t.react r stage m).retain m = t' at htracks hwaiter ⊢
  split
  · rename_i hactive'
    exact ⟨_, rfl, htracks, (if_pos hactive').symm⟩
  · rename_i hactive'
    have hended : ({ t' with waiter := none } : Transaction η φ).isActive = t'.isActive := rfl
    refine ⟨_, rfl, { htracks with waiter := fun h => absurd h hactive' }, ?_⟩
    rw [hended, if_neg hactive']
    exact hwaiter

theorem Tracks.turn (h : Tracks t₀ steps messages t) (call : TransactionCall) :
    Tracks t₀ (steps ++ (t.turn r call).steps) (messages ++ (t.turn r call).message?.toList)
      (t.turn r call).after := by
  cases call with
  | progress opcodes =>
    show Tracks t₀ (steps ++ [.progress opcodes]) (messages ++ []) (t.perform (.progress opcodes))
    rw [List.append_nil]
    exact h.perform _
  | done code =>
    show Tracks t₀ (steps ++ [.done code]) (messages ++ []) (t.perform (.done code))
    rw [List.append_nil]
    exact h.perform _
  | process m =>
    cases hstate : t.state with
    | active stage =>
      obtain ⟨p, hp, htracks, -⟩ := h.process (r := r) (isActive_eq_true.mpr ⟨stage, hstate⟩) m
      rw [Transaction.turn, hp]
      exact htracks
    | done code =>
      rw [Transaction.turn, process_of_done hstate]
      simpa [TransactionTurn.message?] using h

theorem tracks_create {token : UInt64} {flags : TransactionFlags} {accepted : List UInt32}
    {hook : Option η} {waiter : Option φ} (h : create token flags accepted hook waiter = .ok t) :
    Tracks t [] [] t := by
  simp only [create] at h
  split at h
  · cases h
  · split at h
    · cases h
    · split at h
      · cases h
      · obtain rfl := Except.ok.inj h
        exact {
          token := rfl
          flags := rfl
          state := rfl
          accepted := rfl
          retained := by simp [TransactionFlags.kept]
          waiter := fun _ => rfl }

theorem Tracks.run (h : Tracks t₀ steps messages t) (calls : List TransactionCall) :
    Tracks t₀ (steps ++ stepsIn (t.history r calls)) (messages ++ messagesIn (t.history r calls))
      (t.run r calls) := by
  induction calls generalizing steps messages t with
  | nil => simpa [history, stepsIn, messagesIn, Transaction.run] using h
  | cons call calls ih =>
    have hnext := ih (h.turn (r := r) call)
    rw [List.append_assoc, List.append_assoc] at hnext
    have hmessages : messagesIn (t.history r (call :: calls)) =
        (t.turn r call).message?.toList ++ messagesIn ((t.turn r call).after.history r calls) := by
      rw [history, messagesIn, List.filterMap_cons]
      cases (t.turn r call).message? <;> rfl
    rw [hmessages]
    exact hnext

theorem turn_of_done {code : Int32} (h : t.state = .done code) (call : TransactionCall) :
    (t.turn r call).after = t := by
  cases call with
  | process m => rw [turn, process_of_done h]
  | progress opcodes =>
    have hstep : t.perform (.progress opcodes) = t := perform_of_done h
    exact hstep
  | done code =>
    have hstep : t.perform (.done code) = t := perform_of_done h
    exact hstep

theorem run_of_done {code : Int32} (h : t.state = .done code) (calls : List TransactionCall) :
    t.run r calls = t := by
  induction calls with
  | nil => rfl
  | cons call calls ih => rwa [run, List.foldl_cons, turn_of_done h]

theorem isActive_eq_false : t.isActive = false ↔ ∃ code, t.state = .done code := by
  unfold isActive
  cases t.state <;> simp

theorem Tracks.turn_process (h : Tracks t₀ steps messages t) (hactive : t.isActive = true)
    (m : Message) : ∃ p, t.turn r (.process m) =
        ⟨.process m, some (.ok p), t.hookSteps r m, p.transaction⟩ ∧
      (p.transaction.isActive = true ↔ ¬∃ code, .done code ∈ t.hookSteps r m) ∧
      p.told = if p.transaction.isActive then none else t₀.waiter := by
  obtain ⟨p, hp, htracks, htold⟩ := h.process (r := r) hactive m
  refine ⟨p, by rw [Transaction.turn, hp], ?_, htold⟩
  rw [htracks.isActive, code?_append, h.isActive.mp hactive, Option.none_or, code?_eq_none]

theorem Tracks.finishes_iff (h : Tracks t₀ steps messages t) (call : TransactionCall) :
    (t.turn r call).finishes = true ↔
      t.isActive = true ∧ ∃ m, call = .process m ∧ ∃ code, .done code ∈ t.hookSteps r m := by
  cases call with
  | progress opcodes => simp [Transaction.turn, TransactionTurn.finishes]
  | done code => simp [Transaction.turn, TransactionTurn.finishes]
  | process m =>
    by_cases hactive : t.isActive = true
    · obtain ⟨p, hp, hended, -⟩ := h.turn_process (r := r) hactive m
      rw [hp]
      simp [TransactionTurn.finishes, ← Bool.not_eq_true, hended, hactive]
    · obtain ⟨code, hdone⟩ := isActive_eq_false.mp (Bool.not_eq_true _ ▸ hactive)
      simp [Transaction.turn, process_of_done hdone, TransactionTurn.finishes, hactive]

theorem Tracks.told_eq (h : Tracks t₀ steps messages t) (call : TransactionCall) :
    (t.turn r call).told =
      if (t.turn r call).finishes then t₀.waiter.map (·, (t.turn r call).after) else none := by
  cases call with
  | progress opcodes => rfl
  | done code => rfl
  | process m =>
    by_cases hactive : t.isActive = true
    · obtain ⟨p, hp, -, htold⟩ := h.turn_process (r := r) hactive m
      rw [hp]
      show p.told.map _ = if !p.transaction.isActive then _ else _
      rw [htold]
      cases p.transaction.isActive <;> rfl
    · obtain ⟨code, hdone⟩ := isActive_eq_false.mp (Bool.not_eq_true _ ▸ hactive)
      rw [Transaction.turn, process_of_done hdone]
      rfl

theorem TransactionTurn.isActive_of_finishes {call : TransactionCall}
    (h : (t.turn r call).finishes = true) : (t.turn r call).after.isActive = false := by
  cases call with
  | progress opcodes => cases h
  | done code => cases h
  | process m =>
    rw [turn] at h ⊢
    cases hp : t.process r m with
    | error e =>
      rw [hp] at h
      cases h
    | ok p =>
      rw [hp] at h
      simpa [TransactionTurn.finishes] using h

theorem finishes_of_done {code : Int32} (h : t.state = .done code) (calls : List TransactionCall) :
    (t.history r calls).filter TransactionTurn.finishes = [] := by
  induction calls with
  | nil => rfl
  | cons call calls ih =>
    have hsilent : (t.turn r call).finishes = false := by
      cases call with
      | process m => rw [turn, process_of_done h]; rfl
      | progress opcodes => rfl
      | done code => rfl
    rw [history, List.filter_cons_of_neg (by simp [hsilent]), turn_of_done h, ih]

theorem messagesIn_of_done {code : Int32} (h : t.state = .done code)
    (calls : List TransactionCall) : messagesIn (t.history r calls) = [] := by
  induction calls with
  | nil => rfl
  | cons call calls ih =>
    have hnone : (t.turn r call).message? = none := by
      cases call with
      | process m => rw [turn, process_of_done h]; rfl
      | progress opcodes => rfl
      | done code => rfl
    rw [history, messagesIn, List.filterMap_cons_none hnone, turn_of_done h]
    exact ih

theorem length_finishing_le (t : Transaction η φ) (calls : List TransactionCall) :
    ((t.history r calls).filter TransactionTurn.finishes).length ≤ 1 := by
  induction calls generalizing t with
  | nil => exact Nat.zero_le 1
  | cons call calls ih =>
    rw [history]
    by_cases hfinishes : (t.turn r call).finishes = true
    · obtain ⟨code, hdone⟩ :=
        isActive_eq_false.mp (TransactionTurn.isActive_of_finishes hfinishes)
      rw [List.filter_cons_of_pos hfinishes, finishes_of_done hdone]
      exact Nat.le_refl 1
    · rw [List.filter_cons_of_neg hfinishes]
      exact ih _

theorem finishing_of_active {calls : List TransactionCall} (h : (t.run r calls).isActive = true) :
    (t.history r calls).filter TransactionTurn.finishes = [] := by
  induction calls generalizing t with
  | nil => rfl
  | cons call calls ih =>
    have hsilent : ¬(t.turn r call).finishes = true := by
      intro hfinishes
      have hended := TransactionTurn.isActive_of_finishes hfinishes
      obtain ⟨code, hdone⟩ := isActive_eq_false.mp hended
      have hrun : t.run r (call :: calls) = (t.turn r call).after := run_of_done hdone calls
      rw [hrun, hended] at h
      cases h
    rw [history, List.filter_cons_of_neg hsilent]
    exact ih h

theorem mem_history {turn : TransactionTurn η φ} {calls : List TransactionCall}
    (h : turn ∈ t.history r calls) : ∃ before call after, calls = before ++ call :: after ∧
      turn = (t.run r before).turn r call := by
  induction calls generalizing t with
  | nil => cases h
  | cons call calls ih =>
    rcases List.mem_cons.mp h with rfl | h
    · exact ⟨[], call, calls, rfl, rfl⟩
    · obtain ⟨before, call', after, rfl, hturn⟩ := ih h
      exact ⟨call :: before, call', after, rfl, hturn⟩

theorem run_snoc (t : Transaction η φ) (calls : List TransactionCall) (call : TransactionCall) :
    t.run r (calls ++ [call]) = ((t.run r calls).turn r call).after :=
  run_append ..

theorem run_of_ended {before after : List TransactionCall}
    (h : (t.run r before).isActive = false) : t.run r (before ++ after) = t.run r before := by
  obtain ⟨code, hdone⟩ := isActive_eq_false.mp h
  rw [run_append, run_of_done hdone]

/-- How a new transaction lives, whatever its hook does and whatever it is called for. -/
structure Lives (r : Reactor η) (t : Transaction η φ) (calls : List TransactionCall) : Prop where
  begins : t.stage? = some 0
  state : (t.run r calls).state = stateAfter (stepsIn (t.history r calls))
  accepted : (t.run r calls).accepted = acceptedAfter (stepsIn (t.history r calls)) t.accepted
  rises {before after : List TransactionCall} {stage stage' : Nat} (h : calls = before ++ after) :
    (t.run r before).stage? = some stage → (t.run r calls).stage? = some stage' → stage ≤ stage'
  ended {before after : List TransactionCall} (h : calls = before ++ after) :
    (t.run r before).isActive = false → t.run r calls = t.run r before
  refused {m : Message} {e : TransactionError} : (t.run r calls).process r m = .error e ↔
    (t.run r calls).isActive = false ∧ e = .finished t.token
  finishes {before after : List TransactionCall} {call : TransactionCall}
    (h : calls = before ++ call :: after) : ((t.run r before).turn r call).finishes = true ↔
      (t.run r before).isActive = true ∧ ∃ m, call = .process m ∧
        ∃ code, .done code ∈ (t.run r before).hookSteps r m
  once : ((t.history r calls).filter TransactionTurn.finishes).length ≤ 1
  /-- Who waits is told in the call that finished it, and shown what it is from then on. -/
  told {before after : List TransactionCall} {call : TransactionCall}
    (h : calls = before ++ call :: after) : ((t.run r before).turn r call).told =
      if ((t.run r before).turn r call).finishes then t.waiter.map (·, t.run r calls) else none
  unheard {before after : List TransactionCall} {code : Int32}
    (h : calls = before ++ .done code :: after) :
    (t.run r before).isActive = true → ∀ turn ∈ t.history r calls, turn.told = none
  retained : (t.run r calls).retained = t.flags.kept (messagesIn (t.history r calls))
  last {before after : List TransactionCall} {m : Message}
    (h : calls = before ++ .process m :: after) :
    ((t.run r before).turn r (.process m)).finishes = true →
      messagesIn (t.history r calls) = messagesIn (t.history r before) ++ [m]

theorem Tracks.process_eq_error (h : Tracks t₀ steps messages t) {e : TransactionError} :
    t.process r m = .error e ↔ t.isActive = false ∧ e = .finished t₀.token := by
  cases hactive : t.isActive with
  | true =>
    obtain ⟨p, hp, -⟩ := h.process (r := r) hactive m
    simp [hp]
  | false =>
    obtain ⟨code, hdone⟩ := isActive_eq_false.mp hactive
    simp [process_of_done hdone, h.token, eq_comm]

theorem finishing_of_owner {before after : List TransactionCall} {code : Int32}
    (h : (t.run r before).isActive = true) :
    (t.history r (before ++ .done code :: after)).filter TransactionTurn.finishes = [] := by
  obtain ⟨stage, hstate⟩ := isActive_eq_true.mp h
  have hdone : (((t.run r before).turn r (.done code)).after).state = .done code := by
    rw [Transaction.turn, done, hstate]
  rw [history_append, List.filter_append, finishing_of_active h, history,
    List.filter_cons_of_neg Bool.false_ne_true, finishes_of_done hdone]
  rfl

theorem Tracks.told_run {before after : List TransactionCall} {call : TransactionCall}
    (h : Tracks t₀ steps messages (t.run r before)) :
    ((t.run r before).turn r call).told = if ((t.run r before).turn r call).finishes then
      t₀.waiter.map (·, t.run r (before ++ call :: after)) else none := by
  rw [h.told_eq call]
  split
  case isTrue hfinishes =>
    have hended := TransactionTurn.isActive_of_finishes hfinishes
    rw [← run_snoc] at hended ⊢
    have hlast : t.run r (before ++ [call] ++ after) = t.run r (before ++ [call]) :=
      run_of_ended hended
    rw [List.append_assoc, List.singleton_append] at hlast
    rw [hlast]
  case isFalse => rfl

theorem lives_run {token : UInt64} {flags : TransactionFlags} {accepted : List UInt32}
    {hook : Option η} {waiter : Option φ} (r : Reactor η)
    (h : create token flags accepted hook waiter = .ok t) (calls : List TransactionCall) :
    t.Lives r calls := by
  have hnew := tracks_create h
  have hrun (calls : List TransactionCall) : Tracks t (stepsIn (t.history r calls))
      (messagesIn (t.history r calls)) (t.run r calls) := hnew.run calls
  exact {
    begins := stage?_eq_some.mpr hnew.state
    state := (hrun calls).state
    accepted := (hrun calls).accepted
    rises := by
      rintro before after stage stage' rfl hstage hstage'
      have hbefore := (hrun before).state.symm.trans (stage?_eq_some.mp hstage)
      have hafter := (hrun _).state.symm.trans (stage?_eq_some.mp hstage')
      rw [history_append, stepsIn, List.flatMap_append] at hafter
      exact stage_le_of_append hbefore hafter
    ended := by
      rintro before after rfl hended
      exact run_of_ended hended
    refused := (hrun calls).process_eq_error
    finishes := by
      rintro before after call rfl
      exact (hrun before).finishes_iff call
    once := t.length_finishing_le calls
    told := by
      rintro before after call rfl
      exact (hrun before).told_run
    unheard := by
      rintro before after code rfl hactive turn hturn
      have hquiet : (t.history r (before ++ .done code :: after)).filter
          TransactionTurn.finishes = [] := finishing_of_owner hactive
      have hsilent : ¬turn.finishes = true := List.filter_eq_nil_iff.mp hquiet turn hturn
      obtain ⟨before', call, after', -, rfl⟩ := mem_history hturn
      rw [(hrun before').told_eq call, if_neg hsilent]
    retained := (hrun calls).retained
    last := by
      rintro before after m rfl hfinishes
      obtain ⟨code, hdone⟩ := isActive_eq_false.mp (TransactionTurn.isActive_of_finishes hfinishes)
      have hactive := (((hrun before).finishes_iff (.process m)).mp hfinishes).1
      obtain ⟨p, hp, -⟩ := (hrun before).turn_process (r := r) hactive m
      have hmessage : ((t.run r before).turn r (.process m)).message? = some m := by rw [hp]; rfl
      rw [history_append, messagesIn, List.filterMap_append, history,
        List.filterMap_cons_some hmessage]
      exact congrArg (_ ++ m :: ·) (messagesIn_of_done hdone after) }

/-- A hook that advances on its first message, finishes on its second, and goes on regardless. -/
def secondTime : Reactor Unit where
  react _ stage _ :=
    if stage = 0 then ([.progress [7, 8]], ()) else ([.done 5, .progress [9], .done 6], ())

def fourCalls : List TransactionCall :=
  [.process (.ofBytes [1]), .process (.ofBytes [2]), .process (.ofBytes [3]), .done 4]

theorem lives_run_second_time : ∃ t : Transaction Unit String,
    create 1 ⟨true, false, true, false, true, true⟩ [7] (some ()) (some "owner") = .ok t ∧
      t.Lives secondTime fourCalls ∧ (t.run secondTime fourCalls).state = .done 5 ∧
      (t.run secondTime fourCalls).accepted = [7, 8] ∧
      (t.run secondTime fourCalls).retained = [.ofBytes [1], .ofBytes [2]] ∧
      (t.history secondTime fourCalls).filterMap (fun turn => turn.told.map Prod.fst) =
        ["owner"] :=
  have hnew : create 1 ⟨true, false, true, false, true, true⟩ [7] (some ()) (some "owner") =
      .ok ⟨1, ⟨true, false, true, false, true, true⟩, [7], .active 0, some (), some "owner", []⟩ :=
    rfl
  ⟨_, hnew, lives_run secondTime hnew fourCalls, rfl, rfl, rfl, rfl⟩

end Transaction

end Arbiter
