import Mathlib.Data.List.Induction
import Arbiter.Proofs.Broker.Effects

/-!
Runs as they are told afterwards. A history keeps each operation with its response and the states
before and after it, the latest last; what holds at the start and survives every step holds of
every run.
-/

namespace Arbiter

structure Step (ω σ : Type) where
  before : Exchange ω σ
  operation : Operation ω
  response : Response
  after : Exchange ω σ

/-- An answer that counts: whose it is and what it says. -/
structure Accepted where
  inst : InstanceId
  uid : UInt32
  verdict : Verdict

namespace Step

variable {ω σ : Type}

def opened? (step : Step ω σ) (s : SessionId) : Option ChannelId :=
  match step.operation, step.response with
  | .openSession _ channel, .opened id => if id = s then some channel else none
  | _, _ => none

def created? (step : Step ω σ) (id : HeadId) : Option Message :=
  match step.operation, step.response with
  | .createHead m _, .created id' => if id' = id then some m else none
  | _, _ => none

theorem created?_eq_some {step : Step ω σ} {id : HeadId} {m : Message} :
    step.created? id = some m ↔
      ∃ waiter, step.operation = .createHead m waiter ∧ step.response = .created id := by
  obtain ⟨before, operation, response, after⟩ := step
  cases operation <;> cases response <;> simp [created?, and_comm]

def waiter? (step : Step ω σ) (id : HeadId) : Option ω :=
  match step.operation, step.response with
  | .createHead _ waiter, .created id' => if id' = id then waiter else none
  | .setWaiter id' waiter, .done => if id' = id then some waiter else none
  | _, _ => none

def accepted? (step : Step ω σ) (id : HeadId) : Option Accepted :=
  match step.operation, step.response with
  | .answer s token verdict _, .answered result =>
    if result = .duplicate then none
    else
      (step.before.broker.sessions.get? s).bind fun sess =>
      (sess.pending.get? token).bind fun i =>
      (step.before.broker.instances.get? i).bind fun inst =>
      if inst.head = id then some ⟨i, sess.uid, verdict⟩ else none
  | _, _ => none

def Abandons (step : Step ω σ) (id : HeadId) : Prop :=
  step.operation = .abandon id ∧ ∃ m, step.response = .abandoned m

def TearsDown (step : Step ω σ) (s : SessionId) : Prop :=
  step.operation = .teardown s ∧ ∃ report, step.response = .tornDown report

end Step

section Past

variable {ω σ α : Type}

def latest (f : Step ω σ → Option α) (past : List (Step ω σ)) : Option α :=
  past.reverse.findSome? f

theorem latest_snoc (f : Step ω σ → Option α) (past : List (Step ω σ)) (step : Step ω σ) :
    latest f (past ++ [step]) = (f step).or (latest f past) := by
  simp only [latest, List.reverse_append, List.reverse_singleton, List.singleton_append,
    List.findSome?_cons]
  cases f step <;> rfl

theorem latest_snoc_of_none {f : Step ω σ → Option α} {past : List (Step ω σ)} {step : Step ω σ}
    (h : f step = none) : latest f (past ++ [step]) = latest f past := by
  rw [latest_snoc, h, Option.none_or]

theorem latest_snoc_of_some {f : Step ω σ → Option α} {past : List (Step ω σ)} {step : Step ω σ}
    {a : α} (h : f step = some a) : latest f (past ++ [step]) = some a := by
  rw [latest_snoc, h, Option.some_or]

theorem exists_of_latest {f : Step ω σ → Option α} {past : List (Step ω σ)} {a : α}
    (h : latest f past = some a) : ∃ step ∈ past, f step = some a := by
  obtain ⟨step, hstep, ha⟩ := List.exists_of_findSome?_eq_some h
  exact ⟨step, List.mem_reverse.mp hstep, ha⟩

def channelOf (past : List (Step ω σ)) (s : SessionId) : Option ChannelId :=
  latest (·.opened? s) past

def createdAs (past : List (Step ω σ)) (id : HeadId) : Option Message :=
  latest (·.created? id) past

def waiterOf (past : List (Step ω σ)) (id : HeadId) : Option ω := latest (·.waiter? id) past

def answerFor (past : List (Step ω σ)) (id : HeadId) : Option Accepted :=
  latest (·.accepted? id) past

def verdictOf (past : List (Step ω σ)) (id : HeadId) : Verdict :=
  ((answerFor past id).map Accepted.verdict).getD .noDecision

def deciderOf (past : List (Step ω σ)) (id : HeadId) : Option UInt32 :=
  (answerFor past id).map Accepted.uid

def Abandoned (past : List (Step ω σ)) (id : HeadId) : Prop := ∃ step ∈ past, step.Abandons id

end Past

namespace Exchange

variable {ω σ : Type}

def step (t : Transport σ) (x : Exchange ω σ) (op : Operation ω) : Step ω σ :=
  ⟨x, op, (x.perform t op).1, (x.perform t op).2⟩

def history (t : Transport σ) (x : Exchange ω σ) : List (Operation ω) → List (Step ω σ)
  | [] => []
  | op :: ops => x.step t op :: history t (x.perform t op).2 ops

theorem run_snoc (t : Transport σ) (x : Exchange ω σ) (ops : List (Operation ω))
    (op : Operation ω) : (run t x (ops ++ [op])).2 = ((run t x ops).2.perform t op).2 := by
  induction ops generalizing x with
  | nil => rfl
  | cons op' ops ih => exact ih _

theorem history_snoc (t : Transport σ) (x : Exchange ω σ) (ops : List (Operation ω))
    (op : Operation ω) :
    history t x (ops ++ [op]) = history t x ops ++ [(run t x ops).2.step t op] := by
  induction ops generalizing x with
  | nil => rfl
  | cons op' ops ih => exact congrArg (x.step t op' :: ·) (ih _)

theorem map_operation_history (t : Transport σ) (x : Exchange ω σ) (ops : List (Operation ω)) :
    (history t x ops).map Step.operation = ops := by
  induction ops generalizing x with
  | nil => rfl
  | cons op ops ih => exact congrArg (op :: ·) (ih _)

theorem response_of_mem_history {t : Transport σ} {x : Exchange ω σ} {ops : List (Operation ω)}
    {step : Step ω σ} (h : step ∈ history t x ops) :
    step.response = (step.before.perform t step.operation).1 := by
  induction ops generalizing x with
  | nil => cases h
  | cons op ops ih =>
    rcases List.mem_cons.mp h with rfl | h
    · rfl
    · exact ih h

theorem run_induction {I : List (Step ω σ) → Exchange ω σ → Prop} {t : Transport σ}
    {x : Exchange ω σ} (hstart : I [] x)
    (hstep : ∀ {past y} (op), I past y → I (past ++ [y.step t op]) (y.perform t op).2)
    (ops : List (Operation ω)) : I (history t x ops) (run t x ops).2 := by
  induction ops using List.reverseRecOn with
  | nil => exact hstart
  | append_singleton ops op ih =>
    rw [history_snoc, run_snoc]
    exact hstep op ih

theorem coherent_run (t : Transport σ) (capacity : Nat) (transport : σ) (ops : List (Operation ω)) :
    (run t (start (.new capacity) transport) ops).2.broker.Coherent :=
  run_induction (I := fun _ x => x.broker.Coherent) (Broker.coherent_new capacity)
    (fun op hb => coherent_perform hb op) ops

end Exchange

end Arbiter
