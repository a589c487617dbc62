import Mathlib.Data.List.Induction
import Mathlib.Logic.Relation
import Arbiter.Client.TransactionSet
import Arbiter.Proofs.Transaction.Lifecycle

/-!
Transactions in the care of a set. A ledger has a line for each transaction that was ever put in, in
that order, and no line is ever struck out: it says whether the set still holds the transaction or
which call it left by. The set itself removes by position; the two are shown to agree after every
run of calls.
-/

namespace Arbiter

inductive SetCall (η φ : Type) where
  | insert (t : Transaction η φ)
  | deliver (m : Message) (isSelf : Bool)
  | takeFinished

/-- Where a transaction is; the number is that of the call it left by. -/
inductive Place (η φ : Type) where
  | held (t : Transaction η φ)
  | handedBack (call : Nat) (t : Transaction η φ)
  | dropped (call : Nat) (t : Transaction η φ)
  | taken (call : Nat) (t : Transaction η φ)

namespace Transaction

variable {η φ : Type}

def Wants (t : Transaction η φ) (m : Message) (isSelf : Bool) : Prop :=
  t.isActive = true ∧ t.token = m.token?.getD 0 ∧ t.directionFits isSelf = true ∧
    ∃ opcode ∈ t.accepted, m.opcode? = some opcode

instance (t : Transaction η φ) (m : Message) (isSelf : Bool) : Decidable (t.Wants m isSelf) :=
  inferInstanceAs (Decidable (_ ∧ _ ∧ _ ∧ _))

def Takes (r : Reactor η) (t t' : Transaction η φ) : Prop :=
  ∃ m p, t.process r m = .ok p ∧ p.transaction = t'

theorem wants_iff {t : Transaction η φ} {m : Message} {isSelf : Bool} :
    t.Wants m isSelf ↔
      ∃ opcode, m.opcode? = some opcode ∧ t.wants (m.token?.getD 0) isSelf opcode = true := by
  simp only [Wants, wants, Bool.and_eq_true, beq_iff_eq, List.contains_iff_mem]
  constructor
  · rintro ⟨hactive, htoken, hfits, opcode, hmem, hop⟩
    exact ⟨opcode, hop, ⟨⟨hactive, htoken⟩, hfits⟩, hmem⟩
  · rintro ⟨opcode, hop, ⟨⟨hactive, htoken⟩, hfits⟩, hmem⟩
    exact ⟨hactive, htoken, hfits, opcode, hmem, hop⟩

theorem exists_process (r : Reactor η) {t : Transaction η φ} (h : t.isActive = true)
    (m : Message) : ∃ p, t.process r m = .ok p := by
  obtain ⟨stage, hstate⟩ := isActive_eq_true.mp h
  rw [process_of_active hstate]
  split <;> exact ⟨_, rfl⟩

theorem Takes.flags {r : Reactor η} {t t' : Transaction η φ} (h : Takes r t t') :
    t'.flags = t.flags := by
  obtain ⟨m, p, hp, rfl⟩ := h
  cases hstate : t.state with
  | done code =>
    rw [process_of_done hstate] at hp
    cases hp
  | active stage =>
    have hflags : ((t.react r stage m).retain m).flags = t.flags :=
      (retain_keeps _ m).1.trans (react_keeps r t stage m).1
    rw [process_of_active hstate] at hp
    split at hp <;> (cases hp; exact hflags)

theorem flags_of_takes {r : Reactor η} {t t' : Transaction η φ}
    (h : Relation.ReflTransGen (Takes r) t t') : t'.flags = t.flags := by
  induction h with
  | refl => rfl
  | tail _ htakes ih => exact htakes.flags.trans ih

end Transaction

open Transaction

namespace Place

variable {η φ : Type}

def held? : Place η φ → Option (Transaction η φ)
  | held t => some t
  | _ => none

theorem held?_eq_some {place : Place η φ} {t : Transaction η φ} :
    place.held? = some t ↔ place = held t := by
  cases place <;> simp [held?]

def transaction : Place η φ → Transaction η φ
  | held t | handedBack _ t | dropped _ t | taken _ t => t

def settled (call : Nat) (t : Transaction η φ) : Place η φ :=
  if t.isActive then held t
  else if t.flags.dequeue then handedBack call t
  else if t.flags.destroy then dropped call t
  else held t

def collected (call : Nat) : Place η φ → Place η φ
  | held t => if t.isActive then held t else taken call t
  | place => place

end Place

namespace TransactionSet

variable {η φ : Type}

def handOver (r : Reactor η) (call : Nat) (m : Message) (isSelf : Bool) :
    List (Place η φ) → List (Place η φ)
  | [] => []
  | .held t :: places =>
    if t.Wants m isSelf then
      match t.process r m with
      | .ok p => Place.settled call p.transaction :: places
      | .error _ => .held t :: places
    else .held t :: handOver r call m isSelf places
  | place :: places => place :: handOver r call m isSelf places

def enter (r : Reactor η) (places : List (Place η φ)) (call : Nat) :
    SetCall η φ → List (Place η φ)
  | .insert t => places ++ [.held t]
  | .deliver m isSelf => handOver r call m isSelf places
  | .takeFinished => places.map (Place.collected call)

def ledger (r : Reactor η) (calls : List (SetCall η φ)) : List (Place η φ) :=
  calls.zipIdx.foldl (fun places (call, n) => enter r places n call) []

def perform (r : Reactor η) (s : TransactionSet η φ) : SetCall η φ → TransactionSet η φ
  | .insert t => s.insert t
  | .deliver m isSelf => (s.deliver r m isSelf).set
  | .takeFinished => s.takeFinished.2

def run (r : Reactor η) (calls : List (SetCall η φ)) : TransactionSet η φ :=
  calls.foldl (perform r) empty

def insertedIn (calls : List (SetCall η φ)) : List (Transaction η φ) :=
  calls.filterMap fun
    | .insert t => some t
    | _ => none

variable {r : Reactor η} {calls : List (SetCall η φ)} {call : SetCall η φ}

theorem ledger_snoc : ledger r (calls ++ [call]) = enter r (ledger r calls) calls.length call := by
  simp [ledger, List.zipIdx_append]

theorem run_snoc : run r (calls ++ [call]) = (run r calls).perform r call := by
  simp [run]

/-- What becomes of a message and of the transaction that took it. -/
inductive Settles (call : Nat) (t : Transaction η φ) : Delivery η φ → Place η φ → Prop where
  | pending (h : t.isActive = true) : Settles call t .pending (.held t)
  | handedBack (h : t.isActive = false) (hdequeue : t.flags.dequeue = true) :
      Settles call t (.finished (some t)) (.handedBack call t)
  | dropped (h : t.isActive = false) (hdequeue : t.flags.dequeue = false)
      (hdestroy : t.flags.destroy = true) : Settles call t (.finished none) (.dropped call t)
  | kept (h : t.isActive = false) (hdequeue : t.flags.dequeue = false)
      (hdestroy : t.flags.destroy = false) : Settles call t (.finished none) (.held t)

theorem Settles.transaction {call : Nat} {t : Transaction η φ} {delivery : Delivery η φ}
    {place : Place η φ} (h : Settles call t delivery place) : place.transaction = t := by
  cases h <;> rfl

/-- What a set gives for a message, and the ledger that it leaves: one line changes, or none does
and the set and the message are as they were. -/
inductive Delivers (r : Reactor η) (s : TransactionSet η φ) (call : Nat) (m : Message)
    (isSelf : Bool) (places : List (Place η φ)) : Delivered η φ → List (Place η φ) → Prop where
  | unmatched (h : ∀ t, .held t ∈ places → ¬t.Wants m isSelf) :
      Delivers r s call m isSelf places ⟨.unmatched m, none, s⟩ places
  | matched {front back t p delivery place} (hplaces : places = front ++ .held t :: back)
      (hfirst : ∀ t', .held t' ∈ front → ¬t'.Wants m isSelf) (hwants : t.Wants m isSelf)
      (hp : t.process r m = .ok p) (hsettles : Settles call p.transaction delivery place) :
      Delivers r s call m isSelf places
        ⟨delivery, p.told.map (·, p.transaction), ⟨(front ++ place :: back).filterMap Place.held?⟩⟩
        (front ++ place :: back)

section Routing

variable {s : TransactionSet η φ} {m : Message} {isSelf : Bool} {t : Transaction η φ}
  {front back : List (Transaction η φ)}

theorem position?_of_unwanted (h : ∀ t ∈ s.items, ¬t.Wants m isSelf) :
    s.position? m isSelf = none := by
  unfold position?
  cases hop : m.opcode? with
  | none => rfl
  | some opcode =>
    refine List.findIdx?_eq_none_iff.mpr fun t ht => Bool.eq_false_iff.mpr fun hwants => ?_
    exact h t ht (wants_iff.mpr ⟨opcode, hop, hwants⟩)

theorem position?_of_wanted (hitems : s.items = front ++ t :: back)
    (hfirst : ∀ t' ∈ front, ¬t'.Wants m isSelf) (hwants : t.Wants m isSelf) :
    s.position? m isSelf = some front.length := by
  obtain ⟨opcode, hop, hwants⟩ := wants_iff.mp hwants
  have hnone : front.findIdx? (·.wants (m.token?.getD 0) isSelf opcode) = none :=
    List.findIdx?_eq_none_iff.mpr fun t' ht' => Bool.eq_false_iff.mpr fun h =>
      hfirst t' ht' (wants_iff.mpr ⟨opcode, hop, h⟩)
  simp [position?, hop, hitems, List.findIdx?_append, List.findIdx?_cons, hnone, hwants]

theorem deliver_of_unwanted (r : Reactor η) (h : ∀ t ∈ s.items, ¬t.Wants m isSelf) :
    s.deliver r m isSelf = ⟨.unmatched m, none, s⟩ := by
  simp [deliver, route?, position?_of_unwanted h]

theorem deliver_of_wanted {r : Reactor η} {p : Processed η φ}
    (hitems : s.items = front ++ t :: back) (hfirst : ∀ t' ∈ front, ¬t'.Wants m isSelf)
    (hwants : t.Wants m isSelf) (hp : t.process r m = .ok p) :
    s.deliver r m isSelf =
      ⟨(s.settle front.length p.transaction).1, p.told.map (·, p.transaction),
        (s.settle front.length p.transaction).2⟩ := by
  have hroute : s.route? m isSelf = some (front.length, t) := by
    simp [route?, position?_of_wanted hitems hfirst hwants, hitems]
  simp [deliver, hroute, hp]

end Routing

theorem settle_spec {s : TransactionSet η φ} {t : Transaction η φ}
    {front back : List (Transaction η φ)} (call : Nat) (hitems : s.items = front ++ t :: back)
    (t' : Transaction η φ) :
    Settles call t' (s.settle front.length t').1 (Place.settled call t') ∧
      (s.settle front.length t').2.items =
        front ++ (Place.settled call t').held?.toList ++ back := by
  unfold settle Place.settled
  rw [hitems]
  split
  case isTrue hactive => exact ⟨.pending hactive, by simp [Place.held?]⟩
  case isFalse hactive =>
    have hactive := Bool.eq_false_iff.mpr hactive
    split
    case isTrue hdequeue =>
      exact ⟨.handedBack hactive hdequeue, by simp [Place.held?, List.eraseIdx_append]⟩
    case isFalse hdequeue =>
      have hdequeue := Bool.eq_false_iff.mpr hdequeue
      split
      case isTrue hdestroy =>
        exact ⟨.dropped hactive hdequeue hdestroy, by simp [Place.held?, List.eraseIdx_append]⟩
      case isFalse hdestroy =>
        exact ⟨.kept hactive hdequeue (Bool.eq_false_iff.mpr hdestroy), by simp [Place.held?]⟩

theorem handOver_of_unwanted {call : Nat} {m : Message} {isSelf : Bool} {places : List (Place η φ)}
    (h : ∀ t, .held t ∈ places → ¬t.Wants m isSelf) :
    handOver r call m isSelf places = places := by
  induction places with
  | nil => rfl
  | cons place places ih =>
    have ih := ih fun t ht => h t (List.mem_cons_of_mem place ht)
    cases place with
    | held t => rw [handOver, if_neg (h t List.mem_cons_self), ih]
    | _ => rw [handOver, ih]; nofun

theorem handOver_of_wanted {call : Nat} {m : Message} {isSelf : Bool} {t : Transaction η φ}
    {p : Processed η φ} {front back : List (Place η φ)}
    (hfirst : ∀ t', .held t' ∈ front → ¬t'.Wants m isSelf) (hwants : t.Wants m isSelf)
    (hp : t.process r m = .ok p) :
    handOver r call m isSelf (front ++ .held t :: back) =
      front ++ Place.settled call p.transaction :: back := by
  induction front with
  | nil => rw [List.nil_append, handOver, if_pos hwants, hp]; rfl
  | cons place front ih =>
    have ih := ih fun t' ht' => hfirst t' (List.mem_cons_of_mem place ht')
    cases place with
    | held t' => rw [List.cons_append, handOver, if_neg (hfirst t' List.mem_cons_self), ih]; rfl
    | _ => rw [List.cons_append, handOver, ih]; rfl; nofun

theorem exists_split (m : Message) (isSelf : Bool) (places : List (Place η φ)) :
    (∀ t, .held t ∈ places → ¬t.Wants m isSelf) ∨
      ∃ front t back, places = front ++ .held t :: back ∧
        (∀ t', .held t' ∈ front → ¬t'.Wants m isSelf) ∧ t.Wants m isSelf := by
  cases hfind : places.find? (·.held?.any (·.Wants m isSelf)) with
  | none =>
    refine .inl fun t ht hwants => ?_
    simpa [Place.held?, hwants] using List.find?_eq_none.mp hfind _ ht
  | some place =>
    obtain ⟨hplace, front, back, hplaces, hfirst⟩ := List.find?_eq_some_iff_append.mp hfind
    obtain ⟨t, rfl, hwants⟩ : ∃ t, place = .held t ∧ t.Wants m isSelf := by
      cases place <;> simp_all [Place.held?]
    refine .inr ⟨front, t, back, hplaces, fun t' ht' hwants => ?_, hwants⟩
    simpa [Place.held?, hwants] using hfirst _ ht'

theorem filterMap_held?_split (front : List (Place η φ)) (place : Place η φ)
    (back : List (Place η φ)) :
    (front ++ place :: back).filterMap Place.held? =
      front.filterMap Place.held? ++ place.held?.toList ++ back.filterMap Place.held? := by
  cases place <;> simp [Place.held?, List.filterMap_cons]

theorem delivers {s : TransactionSet η φ} {places : List (Place η φ)}
    (h : s.items = places.filterMap Place.held?) (call : Nat) (m : Message) (isSelf : Bool) :
    Delivers r s call m isSelf places (s.deliver r m isSelf) (handOver r call m isSelf places) ∧
      (s.deliver r m isSelf).set.items =
        (handOver r call m isSelf places).filterMap Place.held? := by
  obtain hnone | ⟨front, t, back, rfl, hfirst, hwants⟩ := exists_split m isSelf places
  · have hitems : ∀ t ∈ s.items, ¬t.Wants m isSelf := by
      intro t ht
      rw [h, List.mem_filterMap] at ht
      obtain ⟨place, hplace, ht⟩ := ht
      exact hnone t (Place.held?_eq_some.mp ht ▸ hplace)
    rw [deliver_of_unwanted r hitems, handOver_of_unwanted hnone]
    exact ⟨.unmatched hnone, h⟩
  · obtain ⟨p, hp⟩ := exists_process r hwants.1 m
    have hitems : s.items = front.filterMap Place.held? ++ t :: back.filterMap Place.held? := by
      rw [h, filterMap_held?_split, List.append_assoc]
      rfl
    have hheld : ∀ t' ∈ front.filterMap Place.held?, ¬t'.Wants m isSelf := by
      intro t' ht'
      obtain ⟨place, hplace, ht'⟩ := List.mem_filterMap.mp ht'
      exact hfirst t' (Place.held?_eq_some.mp ht' ▸ hplace)
    obtain ⟨hsettles, hset⟩ := settle_spec call hitems p.transaction
    have hset : (s.settle (front.filterMap Place.held?).length p.transaction).2 =
        ⟨(front ++ Place.settled call p.transaction :: back).filterMap Place.held?⟩ := by
      rw [filterMap_held?_split, ← hset]
    rw [deliver_of_wanted hitems hheld hwants hp, handOver_of_wanted hfirst hwants hp, hset]
    exact ⟨.matched rfl hfirst hwants hp hsettles, rfl⟩

/-- What a call may do to a line of the ledger. -/
inductive Moves (r : Reactor η) (s : TransactionSet η φ) (n : Nat) :
    SetCall η φ → Place η φ → Place η φ → Prop where
  | same {call place} : Moves r s n call place place
  | delivered {m isSelf t p place} (hwants : t.Wants m isSelf) (hp : t.process r m = .ok p)
      (hsettles : Settles n p.transaction (s.deliver r m isSelf).delivery place) :
      Moves r s n (.deliver m isSelf) (.held t) place
  | taken {t} (hdone : t.isActive = false) (hmem : t ∈ s.takeFinished.1) :
      Moves r s n .takeFinished (.held t) (.taken n t)

theorem mem_takeFinished {s : TransactionSet η φ} {t : Transaction η φ} :
    t ∈ s.takeFinished.1 ↔ t ∈ s.items ∧ t.isActive = false := by
  simp [takeFinished, List.partition_eq_filter_filter]

theorem takeFinished_set (s : TransactionSet η φ) :
    s.takeFinished.2.items = s.items.filter (·.isActive) := by
  simp [takeFinished, List.partition_eq_filter_filter]

theorem filterMap_held?_collected (n : Nat) (places : List (Place η φ)) :
    (places.map (Place.collected n)).filterMap Place.held? =
      (places.filterMap Place.held?).filter (·.isActive) := by
  induction places with
  | nil => rfl
  | cons place places ih =>
    cases place with
    | held t =>
      cases hactive : t.isActive <;>
        simp [Place.collected, Place.held?, List.filterMap_cons, hactive, ih]
    | _ => simpa [Place.collected, Place.held?, List.filterMap_cons] using ih

variable {s : TransactionSet η φ} {places : List (Place η φ)} {place place' : Place η φ} {i n : Nat}

theorem perform_items (h : s.items = places.filterMap Place.held?) :
    (s.perform r call).items = (enter r places n call).filterMap Place.held? := by
  cases call with
  | insert t => simp [perform, insert, enter, h, Place.held?]
  | deliver m isSelf => exact (delivers h n m isSelf).2
  | takeFinished => rw [perform, takeFinished_set, enter, filterMap_held?_collected, h]

theorem getElem?_split_congr {α : Type} {front back : List α} {i : Nat} (h : i ≠ front.length)
    (x y : α) : (front ++ x :: back)[i]? = (front ++ y :: back)[i]? := by
  rw [List.getElem?_append, List.getElem?_append]
  split
  · rfl
  · obtain ⟨k, hk⟩ : ∃ k, i - front.length = k + 1 := ⟨i - front.length - 1, by omega⟩
    rw [hk, List.getElem?_cons_succ, List.getElem?_cons_succ]

theorem Delivers.line {m : Message} {isSelf : Bool} {d : Delivered η φ}
    {places' : List (Place η φ)} (h : Delivers r s n m isSelf places d places')
    (hd : s.deliver r m isSelf = d) (hplace : places'[i]? = some place') :
    ∃ place, places[i]? = some place ∧ Moves r s n (.deliver m isSelf) place place' := by
  cases h with
  | unmatched => exact ⟨place', hplace, .same⟩
  | matched hplaces hfirst hwants hp hsettles =>
    rename_i front back t p delivery place
    subst hplaces
    have hdelivery : (s.deliver r m isSelf).delivery = delivery := by rw [hd]
    by_cases hi : i = front.length
    · subst hi
      obtain rfl : place = place' := by simpa using hplace
      exact ⟨.held t, by simp, .delivered hwants hp (hdelivery ▸ hsettles)⟩
    · exact ⟨place', by rwa [getElem?_split_congr hi _ place], .same⟩

theorem line_cases (h : s.items = places.filterMap Place.held?)
    (hplace : (enter r places n call)[i]? = some place') :
    (∃ place, places[i]? = some place ∧ Moves r s n call place place') ∨
      i = places.length ∧ ∃ t, call = .insert t ∧ place' = .held t := by
  cases call with
  | insert t =>
    rw [enter, List.getElem?_append] at hplace
    split at hplace
    · exact .inl ⟨place', hplace, .same⟩
    · obtain ⟨hi, rfl⟩ : i - places.length = 0 ∧ .held t = place' := by
        simpa [List.getElem?_singleton] using hplace
      exact .inr ⟨by omega, t, rfl, rfl⟩
  | deliver m isSelf =>
    exact .inl ((delivers h n m isSelf).1.line rfl hplace)
  | takeFinished =>
    rw [enter, List.getElem?_map, Option.map_eq_some_iff] at hplace
    obtain ⟨place, hplace, rfl⟩ := hplace
    refine .inl ⟨place, hplace, ?_⟩
    cases place with
    | held t =>
      cases hactive : t.isActive with
      | true => simpa [Place.collected, hactive] using .same
      | false =>
        have hmem : t ∈ s.items := by
          rw [h, List.mem_filterMap]
          exact ⟨_, List.mem_of_getElem? hplace, rfl⟩
        simpa [Place.collected, hactive] using .taken hactive (mem_takeFinished.mpr ⟨hmem, hactive⟩)
    | _ => exact .same

theorem Delivers.length {m : Message} {isSelf : Bool} {d : Delivered η φ}
    {places' : List (Place η φ)} (h : Delivers r s n m isSelf places d places') :
    places'.length = places.length := by
  cases h with
  | unmatched => rfl
  | matched hplaces => simp [hplaces]

theorem insertedIn_snoc : insertedIn (calls ++ [call]) =
    insertedIn calls ++ match call with
      | .insert t => [t]
      | _ => [] := by
  cases call <;> simp [insertedIn]

theorem enter_length (h : s.items = places.filterMap Place.held?) :
    (enter r places n call).length = places.length + (insertedIn [call]).length := by
  cases call with
  | insert t => simp [enter, insertedIn]
  | deliver m isSelf => exact (delivers h n m isSelf).1.length
  | takeFinished => simp [enter, insertedIn]

theorem line_next (h : s.items = places.filterMap Place.held?) (call : SetCall η φ)
    (hplace : places[i]? = some place) :
    ∃ place', (enter r places n call)[i]? = some place' ∧ Moves r s n call place place' := by
  obtain ⟨hi, -⟩ := List.getElem?_eq_some_iff.mp hplace
  have hi' : i < (enter r places n call).length := by
    rw [enter_length h]
    omega
  refine ⟨(enter r places n call)[i], List.getElem?_eq_getElem hi', ?_⟩
  obtain ⟨place'', hplace'', hmoves⟩ | ⟨rfl, -⟩ := line_cases h (List.getElem?_eq_getElem hi')
  · rw [hplace, Option.some.injEq] at hplace''
    exact hplace'' ▸ hmoves
  · omega

namespace Moves

theorem grown (h : Moves r s n call place place') :
    Relation.ReflTransGen (Takes r) place.transaction place'.transaction := by
  cases h with
  | same => exact .refl
  | delivered hwants hp hsettles => exact .single ⟨_, _, hp, hsettles.transaction.symm⟩
  | taken => exact .refl

theorem stays (h : Moves r s n call place place') (hleft : place.held? = none) :
    place' = place := by
  cases h with
  | same => rfl
  | delivered => simp [Place.held?] at hleft
  | taken => simp [Place.held?] at hleft

theorem rests {t : Transaction η φ} (h : Moves r s n call (.held t) place')
    (hdone : t.isActive = false) : place' = .held t ∨ place' = .taken n t := by
  cases h with
  | same => exact .inl rfl
  | delivered hwants => exact absurd (hwants.1.symm.trans hdone) nofun
  | taken => exact .inr rfl

end Moves

/-- What is so of a set of transactions after any calls. -/
structure Custody (r : Reactor η) (calls : List (SetCall η φ)) : Prop where
  /-- The set has the transactions that it still holds, in the order in which they were put in. -/
  items : (run r calls).items = (ledger r calls).filterMap Place.held?
  lines : (ledger r calls).length = (insertedIn calls).length
  grown : ∀ {i : Nat} {t₀ : Transaction η φ} {place : Place η φ}, (insertedIn calls)[i]? = some t₀ →
    (ledger r calls)[i]? = some place →
    Relation.ReflTransGen (Takes r) t₀ place.transaction ∧ place.transaction.flags = t₀.flags
  /-- A transaction that is no longer held left by one call, of the number that its line gives. -/
  left : ∀ {i : Nat} {place : Place η φ}, (ledger r calls)[i]? = some place → place.held? = none →
    ∃ n call t, calls[n]? = some call ∧ (ledger r (calls.take n))[i]? = some (.held t) ∧
      Moves r (run r (calls.take n)) n call (.held t) place
  stays : ∀ {i : Nat} {place : Place η φ}, (ledger r calls)[i]? = some place → place.held? = none →
    ∀ later, (ledger r (calls ++ later))[i]? = some place
  /-- A finished transaction that is held rests until it is taken. -/
  rests : ∀ {i : Nat} {t : Transaction η φ}, (ledger r calls)[i]? = some (.held t) →
    t.isActive = false → ∀ later, (ledger r (calls ++ later))[i]? = some (.held t) ∨
      ∃ n, (ledger r (calls ++ later))[i]? = some (.taken n t)
  wants : ∀ {t : Transaction η φ} {m : Message} {isSelf : Bool}, t ∈ (run r calls).items →
    if t.isActive then ∃ p, t.process r m = .ok p else ¬t.Wants m isSelf
  insert t : ledger r (calls ++ [.insert t]) = ledger r calls ++ [.held t]
  deliver m isSelf : Delivers r (run r calls) calls.length m isSelf (ledger r calls)
    ((run r calls).deliver r m isSelf) (ledger r (calls ++ [.deliver m isSelf]))
  takeFinished : (run r calls).takeFinished.1 =
      ((ledger r calls).filterMap Place.held?).filter (!·.isActive) ∧
    ledger r (calls ++ [.takeFinished]) = (ledger r calls).map (Place.collected calls.length)

variable (r : Reactor η) (calls : List (SetCall η φ))

theorem items_run : (run r calls).items = (ledger r calls).filterMap Place.held? := by
  induction calls using List.reverseRecOn with
  | nil => rfl
  | append_singleton calls call ih =>
    rw [run_snoc, ledger_snoc]
    exact perform_items ih

theorem length_ledger : (ledger r calls).length = (insertedIn calls).length := by
  induction calls using List.reverseRecOn with
  | nil => rfl
  | append_singleton calls call ih =>
    rw [ledger_snoc, enter_length (items_run r calls), ih]
    simp [insertedIn]

theorem ledger_append {P : Place η φ → Prop} (later : List (SetCall η φ))
    (hP : ∀ {s n call place place'}, Moves r s n call place place' → P place → P place')
    {i : Nat} {place : Place η φ} (hplace : (ledger r calls)[i]? = some place) (h : P place) :
    ∃ place', (ledger r (calls ++ later))[i]? = some place' ∧ P place' := by
  induction later using List.reverseRecOn with
  | nil => exact ⟨place, by rwa [List.append_nil], h⟩
  | append_singleton later call ih =>
    obtain ⟨place', hplace', h'⟩ := ih
    obtain ⟨place'', hplace'', hmoves⟩ := line_next (items_run r (calls ++ later)) call hplace'
    rw [← List.append_assoc, ledger_snoc]
    exact ⟨place'', hplace'', hP hmoves h'⟩

theorem grown_ledger {i : Nat} {t₀ : Transaction η φ} {place : Place η φ}
    (ht₀ : (insertedIn calls)[i]? = some t₀) (hplace : (ledger r calls)[i]? = some place) :
    Relation.ReflTransGen (Takes r) t₀ place.transaction := by
  induction calls using List.reverseRecOn generalizing place with
  | nil => cases hplace
  | append_singleton calls call ih =>
    rw [ledger_snoc] at hplace
    rw [insertedIn_snoc] at ht₀
    obtain ⟨place', hplace', hmoves⟩ | ⟨rfl, t, rfl, rfl⟩ := line_cases (items_run r calls) hplace
    · obtain ⟨hi, -⟩ := List.getElem?_eq_some_iff.mp hplace'
      rw [List.getElem?_append_left (length_ledger r calls ▸ hi)] at ht₀
      exact (ih ht₀ hplace').trans hmoves.grown
    · rw [length_ledger, List.getElem?_concat_length, Option.some.injEq] at ht₀
      exact ht₀ ▸ .refl

theorem left_ledger {i : Nat} {place : Place η φ} (hplace : (ledger r calls)[i]? = some place)
    (hleft : place.held? = none) :
    ∃ n call t, calls[n]? = some call ∧ (ledger r (calls.take n))[i]? = some (.held t) ∧
      Moves r (run r (calls.take n)) n call (.held t) place := by
  induction calls using List.reverseRecOn generalizing place with
  | nil => cases hplace
  | append_singleton calls call ih =>
    rw [ledger_snoc] at hplace
    obtain ⟨place', hplace', hmoves⟩ | ⟨rfl, t, rfl, rfl⟩ := line_cases (items_run r calls) hplace
    · cases hheld : place'.held? with
      | none =>
        -- It left before.
        obtain rfl := hmoves.stays hheld
        obtain ⟨n, call', t, hcall, hline, hmoves⟩ := ih hplace' hleft
        obtain ⟨hn, -⟩ := List.getElem?_eq_some_iff.mp hcall
        refine ⟨n, call', t, by rwa [List.getElem?_append_left hn], ?_⟩
        rw [List.take_append_of_le_length (Nat.le_of_lt hn)]
        exact ⟨hline, hmoves⟩
      | some t =>
        -- It leaves by the last call.
        obtain rfl := Place.held?_eq_some.mp hheld
        refine ⟨calls.length, call, t, List.getElem?_concat_length, ?_⟩
        rw [List.take_left]
        exact ⟨hplace', hmoves⟩
    · cases hleft

/-- Transactions are neither lost nor duplicated, whatever a set is asked to do. -/
theorem custody_run : Custody r calls where
  items := items_run r calls
  lines := length_ledger r calls
  grown ht₀ hplace :=
    have hgrown := grown_ledger r calls ht₀ hplace
    ⟨hgrown, flags_of_takes hgrown⟩
  left := left_ledger r calls
  stays {i place} hplace hleft later := by
    obtain ⟨place', hplace', rfl⟩ := ledger_append r calls (P := (· = place)) later
      (fun hmoves h => (hmoves.stays (h ▸ hleft)).trans h) hplace rfl
    exact hplace'
  rests {i t} hplace hdone later := by
    obtain ⟨place', hplace', rfl | ⟨n, rfl⟩⟩ := ledger_append r calls
      (P := fun place => place = .held t ∨ ∃ n, place = .taken n t) later
      (by
        rintro s n call place place' hmoves (rfl | ⟨n', rfl⟩)
        · exact (hmoves.rests hdone).imp_right fun h => ⟨n, h⟩
        · exact .inr ⟨n', hmoves.stays rfl⟩)
      hplace (.inl rfl)
    · exact .inl hplace'
    · exact .inr ⟨n, hplace'⟩
  wants {t m isSelf} _ := by
    split
    case isTrue hactive => exact exists_process r hactive m
    case isFalse hdone => exact fun h => hdone h.1
  insert t := ledger_snoc
  deliver m isSelf := by
    rw [ledger_snoc]
    exact (delivers (items_run r calls) calls.length m isSelf).1
  takeFinished := by
    refine ⟨?_, ledger_snoc⟩
    rw [← items_run r calls]
    simp [takeFinished, List.partition_eq_filter_filter, Function.comp_def]

end TransactionSet

end Arbiter
