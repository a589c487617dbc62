import Mathlib.Logic.Relation
import Arbiter.Proofs.Client.Correlation

/-!
What a client can be asked to do, and runs of such calls. A call changes the client in two ways: a
request is tracked under a token of its own, or a transaction is over. Both keep each pending request
waited for, and leave token zero to the greeting.
-/

namespace Arbiter

inductive ClientCommand where
  | register (f : Filter)
  | unregister (f : Filter)
  | answer (token : UInt64) (verdict : Verdict) (delegate : Bool)
  | close

inductive ClientCall where
  | command (command : ClientCommand)
  | receive (m : Message)

namespace Client

open Transaction

variable {c c' : Client} {token : UInt64}

/-- A client as a program makes it, its first token one more than a random number. -/
def fresh (seed : UInt32) : Client := .new (seed.toUInt64 + 1)

def command (c : Client) : ClientCommand → Except ClientError Reaction × Client
  | .register f => writing (c.register f)
  | .unregister f => writing (c.unregister f)
  | .answer token verdict delegate => writing (c.answer token verdict delegate, c)
  | .close => writing c.close

def perform (c : Client) : ClientCall → Except ClientError Reaction × Client
  | .command command => c.command command
  | .receive m => c.receive m

def run (c : Client) (calls : List ClientCall) : Client :=
  calls.foldl (fun c call => (c.perform call).2) c

inductive Shift (c : Client) : Client → Prop where
  | asked {what m} (h : what.Written c.nextToken m) : Shift c (c.asked what)
  | greeted {i} (hi : c.transactions.items[i]? = some forGreeting) :
      Shift c (c.settled i 0 c.version)
  | replied {i token} (version) (hi : c.transactions.items[i]? = some (forReply token)) :
      Shift c (c.settled i token version)

theorem Asks.shifts {what : Request} {result : Except ClientError Message × Client}
    (h : Asks c what result) : Relation.ReflTransGen Shift c result.2 := by
  cases h with
  | refused => exact .refl
  | sent h => exact .single (.asked h)

theorem Received.shifts {m : Message} {result : Except ClientError Reaction × Client}
    (h : Received c m result) : Relation.ReflTransGen Shift c result.2 := by
  cases h with
  | unsolicited => exact .refl
  | ignored hop hi => exact .single (.greeted hi)
  | greeted hop hi ha => exact .head (.greeted hi) ha.shifts
  | replied version hi => exact .single (.replied version hi)

structure Poised (c : Client) : Prop where
  regular : c.Regular
  nonzero : c.nextToken ≠ 0
  greeting {what} : c.pending.get? 0 = some what → what = .hello
  awaited {token what} : c.pending.get? token = some what → what ≠ .hello →
    forReply token ∈ c.transactions.items

theorem advance_nextToken (c : Client) : c.advance.nextToken ≠ 0 := by
  simp only [advance, takeToken]
  split
  · decide
  · assumption

theorem forGreeting_ne_forReply (token : UInt64) : forGreeting ≠ forReply token := by
  simp [forGreeting, forReply]

theorem mem_eraseIdx_of_ne {l : List (Transaction Unit Empty)} {i : Nat}
    {t t' : Transaction Unit Empty} (hi : l[i]? = some t') (ht : t ∈ l) (hne : t' ≠ t) :
    t ∈ l.eraseIdx i := by
  obtain ⟨j, hj⟩ := List.mem_iff_getElem?.mp ht
  refine List.mem_eraseIdx_iff_getElem?.mpr ⟨j, ?_, hj⟩
  rintro rfl
  exact hne (Option.some.inj (hi.symm.trans hj))

namespace Poised

theorem asked (hc : c.Poised) (what : Request) : (c.asked what).Poised where
  regular t ht := by
    rcases List.mem_append.mp ht with ht | ht
    · exact hc.regular t ht
    · exact .inr ⟨c.nextToken, List.mem_singleton.mp ht⟩
  nonzero := c.advance_nextToken
  greeting h := by
    rw [Client.asked, Table.get?_insert, if_neg hc.nonzero.symm] at h
    exact hc.greeting h
  awaited {token what'} h hne := by
    rw [Client.asked, Table.get?_insert] at h
    split at h
    · rename_i htoken
      exact List.mem_append_right _ (htoken ▸ List.mem_singleton_self _)
    · exact List.mem_append_left _ (hc.awaited h hne)

theorem settled (hc : c.Poised) {i : Nat} {t : Transaction Unit Empty} (version : Option UInt32)
    (hi : c.transactions.items[i]? = some t)
    (ht : ∀ token', token' ≠ token → t ≠ forReply token') :
    (c.settled i token version).Poised where
  regular t ht := hc.regular t (List.mem_of_mem_eraseIdx ht)
  nonzero := hc.nonzero
  greeting h := by
    rw [Client.settled, Table.get?_erase] at h
    split at h
    · cases h
    · exact hc.greeting h
  awaited {token' what} h hne := by
    rw [Client.settled, Table.get?_erase] at h
    split at h
    · cases h
    · rename_i htoken
      exact mem_eraseIdx_of_ne hi (hc.awaited h hne) (ht token' htoken)

theorem shift (hc : c.Poised) (h : Shift c c') : c'.Poised := by
  cases h with
  | asked h => exact hc.asked _
  | greeted hi => exact hc.settled _ hi fun token' _ => forGreeting_ne_forReply token'
  | replied version hi =>
    refine hc.settled version hi fun token' hne h => hne ?_
    exact congrArg Transaction.token h.symm

theorem shifts (hc : c.Poised) (h : Relation.ReflTransGen Shift c c') : c'.Poised := by
  induction h with
  | refl => exact hc
  | tail _ hshift ih => exact ih.shift hshift

theorem received (hc : c.Poised) {m : Message} (hcheck : m.check = .ok ()) :
    Received c m (c.receive m) :=
  Client.received hc.regular (fun _ => hc.greeting) hcheck

theorem receive_eq_malformed (hc : c.Poised) {m : Message} {fault : Fault} :
    (c.receive m).1 = .error (.malformed fault) ↔ m.check = .error fault := by
  cases hcheck : m.check with
  | error fault' =>
    rw [receive_of_malformed hcheck]
    simp
  | ok =>
    simp only [reduceCtorEq, iff_false]
    have hreceived := hc.received hcheck
    generalize c.receive m = result at hreceived ⊢
    cases hreceived with
    | unsolicited =>
      obtain ⟨content, hm, -⟩ := Message.exists_decode hcheck
      rw [unsolicited, hm]
      cases content <;> simp
    | ignored => simp
    | greeted hop hi ha =>
      cases ha with
      | refused he => simpa [writing, Except.map] using he fault
      | sent => simp [writing, Except.map]
    | replied => simp

end Poised

theorem command_shifts (c : Client) (command : ClientCommand) :
    Relation.ReflTransGen Shift c (c.command command).2 := by
  cases command with
  | register f => exact (c.register_asks f).shifts
  | unregister f => exact (c.unregister_asks f).shifts
  | answer => exact .refl
  | close => exact c.close_asks.shifts

theorem perform_shifts (hc : c.Poised) (call : ClientCall) :
    Relation.ReflTransGen Shift c (c.perform call).2 := by
  cases call with
  | command command => exact c.command_shifts command
  | receive m =>
    show Relation.ReflTransGen Shift c (c.receive m).2
    cases hcheck : m.check with
    | error fault => rw [receive_of_malformed hcheck]
    | ok => exact (hc.received hcheck).shifts

theorem fresh_nextToken (seed : UInt32) : (fresh seed).nextToken ≠ 0 := by
  intro h
  have hnat := congrArg UInt64.toNat h
  have hlt := seed.toNat_lt
  have hnext : (fresh seed).nextToken.toNat = seed.toNat + 1 := by
    show (seed.toUInt64 + 1).toNat = _
    rw [UInt64.toNat_add]
    simp
    omega
  rw [hnext] at hnat
  exact absurd hnat (Nat.succ_ne_zero _)

theorem poised_fresh (seed : UInt32) : (fresh seed).Poised where
  regular t ht := .inl (List.mem_singleton.mp ht)
  nonzero := fresh_nextToken seed
  greeting {what} h := by
    have hinsert : (fresh seed).pending = Table.empty.insert 0 .hello := rfl
    rw [hinsert, Table.get?_insert, if_pos rfl, Option.some.injEq] at h
    exact h.symm
  awaited {token what} h hne := by
    have hinsert : (fresh seed).pending = Table.empty.insert 0 .hello := rfl
    rw [hinsert, Table.get?_insert] at h
    split at h
    · exact absurd (Option.some.inj h).symm hne
    · cases h

theorem poised_run (seed : UInt32) (calls : List ClientCall) : ((fresh seed).run calls).Poised := by
  suffices hrun : ∀ c : Client, c.Poised → (c.run calls).Poised from hrun _ (poised_fresh seed)
  induction calls with
  | nil => exact fun c hc => hc
  | cons call calls ih => exact fun c hc => ih _ (hc.shifts (perform_shifts hc call))

end Client

end Arbiter
