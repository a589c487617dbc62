import Arbiter.Proofs.Client.Runs
import Arbiter.Proofs.Message.RoundTrip

/-!
Refusals of answers. The daemon refuses an answer under the token of its event, which the event's
source has chosen. A client that awaits no reply under that token reports the refusal and keeps all
it has; one that does takes the refusal for the reply.
-/

namespace Arbiter

namespace Client

open Transaction

variable {c : Client} {m : Message} {token : UInt64} {opcode : UInt32} {error : Int32}

theorem conclusion_not_answerRejected (c : Client) (token token' : UInt64) (error error' : Int32) :
    .answerRejected token' error' ∉ c.conclusion token error := by
  unfold conclusion
  cases c.pending.get? token with
  | none => exact List.not_mem_nil
  | some what =>
    rw [Option.map_some, Option.getD_some]
    cases what with
    | hello => exact List.not_mem_nil
    | close => simp [Request.conclusion]
    | _ =>
      rw [Request.conclusion, List.mem_singleton]
      split <;> exact Notice.noConfusion

theorem Poised.receive_reply (hc : c.Poised) (hcheck : m.check = .ok ())
    (hm : m.decode = .ok (.reply token opcode error)) :
    ¬c.Awaits token ∧ c.receive m = (unsolicited m, c) ∨
      c.Awaits token ∧ ∃ i version, c.transactions.items[i]? = some (forReply token) ∧
        c.receive m = (.ok ⟨[], c.conclusion token error⟩, c.settled i token version) := by
  have hreply : m.opcode? = some Opcode.reply.code := Message.opcode?_of_decode hm
  have hgreeting : m.opcode? ≠ some Opcode.hello.code := by
    rw [hreply]
    decide
  have htoken : m.token?.getD 0 = token := by
    rw [Message.token?_of_decode hm]
    rfl
  have hreceived := hc.received hcheck
  generalize c.receive m = result at hreceived ⊢
  cases hreceived with
  | unsolicited hnot => exact .inl ⟨htoken ▸ hnot hreply, rfl⟩
  | ignored hop => exact absurd hop hgreeting
  | greeted hop => exact absurd hop hgreeting
  | replied version hi hm' =>
    rw [hm] at hm'
    cases hm'
    exact .inr ⟨hc.regular.awaits_iff.mpr (List.mem_of_getElem? hi), _, version, hi, rfl⟩

/-- What a client makes of the refusal of an answer. -/
structure Rejected (c : Client) (m : Message) (token : UInt64) (error : Int32) : Prop where
  /-- The refusal is reported and the client is as it was. -/
  reported : ¬c.Awaits token → c.receive m = (.ok (.notice (.answerRejected token error)), c)
  /-- The refusal concludes the pending request of the token, and only that. -/
  taken : c.Awaits token → ∃ c', c.receive m = (.ok ⟨[], c.conclusion token error⟩, c') ∧
    (∀ token' error', .answerRejected token' error' ∉ c.conclusion token error) ∧
    ∀ token', c'.pending.get? token' = if token' = token then none else c.pending.get? token'
  awaited {what} : c.pending.get? token = some what → what ≠ .hello → c.Awaits token

theorem Poised.rejected (hc : c.Poised) (hcheck : m.check = .ok ())
    (hm : m.decode = .ok (.reply token Opcode.answer.code error)) : c.Rejected m token error where
  reported hnot := by
    rcases hc.receive_reply hcheck hm with ⟨-, hreceive⟩ | ⟨hawaits, -⟩
    · rw [hreceive, unsolicited, hm]
      rfl
    · exact absurd hawaits hnot
  taken hawaits := by
    rcases hc.receive_reply hcheck hm with ⟨hnot, -⟩ | ⟨-, i, version, -, hreceive⟩
    · exact absurd hawaits hnot
    · exact ⟨_, hreceive, fun token' => c.conclusion_not_answerRejected token token' error,
        Table.get?_erase c.pending token⟩
  awaited hpending hne := hc.regular.awaits_iff.mpr (hc.awaited hpending hne)

/-- A refused answer is told from a reply to a request by its token alone. -/
theorem rejected_run (seed : UInt32) (calls : List ClientCall)
    (hcheck : m.check = .ok ())
    (hm : m.decode = .ok (.reply token Opcode.answer.code error)) :
    ((fresh seed).run calls).Rejected m token error :=
  (poised_run seed calls).rejected hcheck hm

theorem exists_rejection (token : UInt64) (error : Int32) : ∃ m : Message, m.check = .ok () ∧
    m.decode = .ok (.reply token Opcode.answer.code error) := by
  obtain ⟨m, hm⟩ := Message.exists_replyTo token Opcode.answer.code error
  have hdecode := Message.decode_reply hm
  exact ⟨m, Message.check_of_compose hm hdecode, hdecode⟩

theorem run_close : (fresh 0).run [.command .close] = (fresh 0).asked .close := by
  obtain ⟨request, hrequest⟩ := Message.exists_close 1
  have hasked : (fresh 0).request .close Message.close = (.ok request, (fresh 0).asked .close) :=
    request_of_write hrequest
  show ((fresh 0).request .close Message.close).2 = _
  rw [hasked]

theorem pending_run_close : ((fresh 0).run [.command .close]).pending.get? 1 = some .close := by
  rw [run_close]
  exact (Table.get?_insert ..).trans (if_pos rfl)

/-- A client that asked to close under token one, and a refusal under another token and under that
one. -/
theorem rejected_run_closing : ∃ m m' : Message,
    m.check = .ok () ∧ m.decode = .ok (.reply 5 Opcode.answer.code Errno.noEntry) ∧
    m'.check = .ok () ∧ m'.decode = .ok (.reply 1 Opcode.answer.code Errno.noEntry) ∧
    let c := (fresh 0).run [.command .close]
    c.pending.get? 1 = some .close ∧
      c.receive m = (.ok (.notice (.answerRejected 5 Errno.noEntry)), c) ∧
      ∃ c', c.receive m' = (.ok ⟨[], c.conclusion 1 Errno.noEntry⟩, c') ∧
        c'.pending.get? 1 = none := by
  obtain ⟨m, hcheck, hm⟩ := exists_rejection 5 Errno.noEntry
  obtain ⟨m', hcheck', hm'⟩ := exists_rejection 1 Errno.noEntry
  have hother := rejected_run 0 [.command .close] hcheck hm
  have hsame := rejected_run 0 [.command .close] hcheck' hm'
  have hidle : ¬((fresh 0).run [.command .close]).Awaits 5 := by
    rw [(poised_run 0 _).regular.awaits_iff, run_close]
    have hitems : ((fresh 0).asked .close).transactions.items = [forGreeting, forReply 1] := rfl
    simp [hitems, forGreeting, forReply]
  obtain ⟨c', hreceive, -, hafter⟩ := hsame.taken (hsame.awaited pending_run_close (by decide))
  refine ⟨m, m', hcheck, hm, hcheck', hm', pending_run_close, hother.reported hidle, c', hreceive,
    ?_⟩
  rw [hafter, if_pos rfl]

/-- A client that asked to close under token one loses that request to the refusal of an answer to
an event with the same token. -/
theorem not_rejection_reported : ¬∀ (seed : UInt32) (calls : List ClientCall) (m : Message)
    (token : UInt64) (error : Int32), m.check = .ok () →
    m.decode = .ok (.reply token Opcode.answer.code error) →
    (((fresh seed).run calls).receive m).1 = .ok (.notice (.answerRejected token error)) ∧
      ∀ token' what, ((fresh seed).run calls).pending.get? token' = some what → what ≠ .hello →
        (((fresh seed).run calls).receive m).2.pending.get? token' = some what := by
  intro h
  obtain ⟨m, hcheck, hm⟩ := exists_rejection 1 Errno.noEntry
  have hkept := (h 0 [.command .close] m 1 Errno.noEntry hcheck hm).2 1 .close pending_run_close
    (by decide)
  have hrejected := (poised_run 0 [.command .close]).rejected hcheck hm
  obtain ⟨c', hreceive, -, hafter⟩ :=
    hrejected.taken (hrejected.awaited pending_run_close (by decide))
  rw [hreceive, hafter, if_pos rfl] at hkept
  cases hkept

end Client

end Arbiter
