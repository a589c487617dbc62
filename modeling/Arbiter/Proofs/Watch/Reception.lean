import Arbiter.Proofs.Watch.Heard

/-!
What a watch makes of one message. Its client has one transaction at a time, so a message is what
the client waits for or is reported as it is; the watch then writes, prints or ends, and the bytes
that are still unread play no part in it.
-/

namespace Arbiter

namespace Client

open Transaction

variable {c : Client} {m : Message} {token : UInt64} {opcode : UInt32} {error : Int32}
  {what : Request}

theorem receive_of_unwanted (hcheck : m.check = .ok ()) (h : ∀ t ∈ c.transactions.items,
    ∀ opcode, m.opcode? = some opcode →
      ¬t.wants (m.token?.getD 0) (m.opcode? == some Opcode.reply.code) opcode = true) :
    c.receive m = (unsolicited m, c) := by
  simp only [receive, hcheck, TransactionSet.deliver]
  cases hroute : c.transactions.route? m (m.opcode? == some Opcode.reply.code) with
  | none => rfl
  | some target =>
    obtain ⟨i, t⟩ := target
    obtain ⟨hi, opcode, hop, hwants⟩ := TransactionSet.route?_eq_some hroute
    exact absurd hwants (h t (List.mem_of_getElem? hi) opcode hop)

theorem receive_idle (hitems : c.transactions.items = []) (hcheck : m.check = .ok ()) :
    c.receive m = (unsolicited m, c) :=
  receive_of_unwanted hcheck fun _ ht => nomatch hitems ▸ ht

theorem receive_ungreeted (hitems : c.transactions.items = [forGreeting])
    (hcheck : m.check = .ok ()) (hm : m.isGreeting = false) :
    c.receive m = (unsolicited m, c) := by
  refine receive_of_unwanted hcheck fun t ht opcode hop hwants => ?_
  obtain rfl := List.mem_singleton.mp (hitems ▸ ht)
  obtain rfl := (forGreeting_wants.mp hwants).2.2
  have hgreeting := Message.isGreeting_iff.mpr (Message.exists_greeting hcheck hop)
  exact Bool.false_ne_true (hm.symm.trans hgreeting)

theorem receive_unreplied (hitems : c.transactions.items = [forReply token])
    (hcheck : m.check = .ok ())
    (hm : ∀ opcode error, m.decode ≠ .ok (.reply token opcode error)) :
    c.receive m = (unsolicited m, c) := by
  refine receive_of_unwanted hcheck fun t ht opcode hop hwants => ?_
  obtain rfl := List.mem_singleton.mp (hitems ▸ ht)
  obtain ⟨hown, -, rfl⟩ := forReply_wants.mp hwants
  obtain ⟨token', opcode, error, hdecode⟩ := Message.reply_of_opcode hcheck hop
  rw [Message.token?_of_decode hdecode] at hown
  obtain rfl : token = token' := hown
  exact hm opcode error hdecode

theorem receive_replied (hitems : c.transactions.items = [forReply token])
    (hpending : c.pending.get? token = some what) (hcheck : m.check = .ok ())
    (hm : m.decode = .ok (.reply token opcode error)) :
    c.receive m = (c.settled 0 token c.version).concluded token error what (some m) := by
  have hop : m.opcode? = some Opcode.reply.code := Message.opcode?_of_decode hm
  have hwants : (forReply token).wants (m.token?.getD 0) true Opcode.reply.code = true := by
    rw [Message.token?_of_decode hm]
    exact forReply_wants.mpr ⟨rfl, rfl, rfl⟩
  have hroute : c.transactions.route? m true = some (0, forReply token) := by
    simp only [TransactionSet.route?, TransactionSet.position?, hop, hitems]
    simp [hwants]
  have hself : (m.opcode? == some Opcode.reply.code) = true := by
    rw [hop]
    exact beq_self_eq_true _
  simp only [receive, hcheck, hself, TransactionSet.deliver, hroute, forReply_process hm]
  show Client.finished _ ((forReply token).finishedBy error m) = _
  rw [finished_finishedBy]
  simp only [forReply, hpending]
  rfl

theorem asked_of_idle (h : c.transactions.items = []) (what : Request) :
    (c.asked what).transactions.items = [forReply c.nextToken] ∧
      (c.asked what).pending.get? c.nextToken = some what := by
  constructor
  · show c.transactions.items ++ [forReply c.nextToken] = _
    rw [h]
    rfl
  · exact (Table.get?_insert ..).trans (if_pos rfl)

structure Serves (c : Client) : Prop where
  connected : c.version.isSome
  awaits : c.transactions.items = [] ∨ ∃ token f, c.transactions.items = [forReply token] ∧
    c.pending.get? token = some (.register f)

theorem exists_answer (hc : c.version.isSome) (token : UInt64) (verdict : Verdict)
    (delegate : Bool) : ∃ answer, c.answer token verdict delegate = .ok answer ∧
      answer.decode = .ok (.answer token verdict delegate) := by
  obtain ⟨answer, hanswer⟩ : ∃ answer, Message.answer token verdict delegate = .ok answer := by
    unfold Message.answer
    apply Message.exists_compose
    simp [Message.headerSize, Message.trailerSize, Message.maxSize]
  refine ⟨answer, ?_, Message.decode_answer hanswer⟩
  rw [Client.answer, if_neg (by simpa using Option.isSome_iff_ne_none.mp hc), hanswer]
  rfl

theorem answer_of_unready (hc : c.version = none) (token : UInt64) (verdict : Verdict)
    (delegate : Bool) : c.answer token verdict delegate = .error .notConnected := by
  rw [Client.answer, hc]
  rfl

theorem exists_register (hc : c.version.isSome) (f : Filter) :
    ∃ m, c.register f = (.ok m, c.asked (.register f)) ∧
      m.decode = .ok (.register ⟨c.nextToken, f, none⟩) := by
  obtain ⟨m, hm⟩ := Message.exists_registration c.nextToken .register f
  have hm' : Message.register ⟨c.nextToken, f, none⟩ = .ok m := hm
  refine ⟨m, ?_, Message.decode_register hm'⟩
  rw [register, if_neg (by simpa using Option.isSome_iff_ne_none.mp hc)]
  exact request_of_write hm'

theorem exists_closing (c : Client) : ∃ m, c.close = (.ok m, c.asked .close) ∧
    m.decode = .ok (.close c.nextToken) := by
  obtain ⟨m, hm⟩ := Message.exists_close c.nextToken
  exact ⟨m, request_of_write hm, Message.decode_close hm⟩

end Client

namespace Watch

variable {m : Message} {c : Client} {w : Watch}

def note (w : Watch) : Content → Watch
  | .event e =>
    if e.needsVerdict then
      w.write (w.client.answer e.token w.options.verdict w.options.delegate, w.client)
    else w
  | .outcome token you uid verdict =>
    let w := w.print token you uid verdict
    if w.options.once then w.close else w
  | _ => w

theorem receive_of_error {e : ClientError} (hended : w.ended = none)
    (h : w.client.receive m = (.error e, c)) :
    w.receive m = { w with client := c }.fail (.client e) := by
  unfold receive
  split
  · cases hended.symm.trans ‹_›
  · rw [h]

theorem receive_of_ok {r : Reaction} (hended : w.ended = none)
    (h : w.client.receive m = (.ok r, c)) :
    w.receive m = r.notices.foldl heed { w with client := c, sent := w.sent ++ r.send } := by
  unfold receive
  split
  · cases hended.symm.trans ‹_›
  · rw [h]

theorem heed_of_live (hended : w.ended = none) (n : Notice) : w.heed n = match n with
    | .connected _ => w.write (w.client.register w.options.filter)
    | .refused error => w.fail (.handshakeRefused error)
    | .requestFailed token error => w.fail (.requestRefused token error)
    | .ask info =>
      w.write (w.client.answer info.token w.options.verdict w.options.delegate, w.client)
    | .outcome token you uid verdict =>
      let w := w.print token you uid verdict
      if w.options.once then w.close else w
    | _ => w := by
  unfold heed
  split
  · cases hended.symm.trans ‹_›
  · rfl

theorem heed_of_ended {ending : WatchEnd} (h : w.ended = some ending) (n : Notice) :
    w.heed n = w := by
  simp only [heed, h]

theorem receive_notice {n : Notice} (hended : w.ended = none)
    (h : w.client.receive m = (.ok (.notice n), c)) :
    w.receive m = { w with client := c }.heed n := by
  rw [receive_of_ok hended h, Reaction.notice, List.append_nil]
  rfl

theorem receive_nothing (hended : w.ended = none) (h : w.client.receive m = (.ok .none, c)) :
    w.receive m = { w with client := c } := by
  rw [receive_of_ok hended h, Reaction.none, List.append_nil]
  rfl

theorem receive_unsolicited (hended : w.ended = none) {content : Content}
    (hm : m.decode = .ok content)
    (hreceive : w.client.receive m = (Client.unsolicited m, w.client)) :
    w.receive m = w.note content := by
  rw [Client.unsolicited, hm] at hreceive
  cases content with
  | event e =>
    rw [receive_notice hended hreceive, heed_of_live hended, note]
    cases e.needsVerdict <;> rfl
  | outcome token you uid verdict =>
    rw [receive_notice hended hreceive, heed_of_live hended, note]
  | reply token opcode error =>
    by_cases hop : opcode = Opcode.answer.code
    · simp only [if_pos hop] at hreceive
      rw [receive_notice hended hreceive, heed_of_live hended]
      rfl
    · simp only [if_neg hop] at hreceive
      rw [receive_nothing hended hreceive]
      rfl
  | status token key value =>
    rw [receive_notice hended hreceive, heed_of_live hended]
    rfl
  | _ => exact receive_nothing hended hreceive

theorem close_eq (hended : w.ended = none) : ∃ m own, m.decode = .ok (.close own) ∧
    w.close.sent = w.sent ++ [m] ∧ w.close.ended = some .finished := by
  obtain ⟨m, hm, hdecode⟩ := w.client.exists_closing
  refine ⟨m, _, hdecode, ?_⟩
  simp [Watch.close, hm, write, hended, finish]

theorem endWith_of_ended {cause : WatchEnd} (h : w.ended = some cause) (ending : Frame.Ending) :
    w.endWith ending = w := by
  unfold endWith
  split
  · rfl
  · cases h.symm.trans ‹_›
  · cases h.symm.trans ‹_›

theorem endWith_ends (w : Watch) (ending : Frame.Ending) :
    (w.endWith ending).ended.isSome ∧ (w.endWith ending).sent = w.sent := by
  unfold endWith
  split
  · exact ⟨Option.isSome_of_eq_some ‹_›, rfl⟩
  · exact ⟨rfl, rfl⟩
  · exact ⟨rfl, rfl⟩

section Unread

variable (left : Bytes)

theorem write_unread (w : Watch) (result : Except ClientError Message × Client) :
    { w with unread := left }.write result = { w.write result with unread := left } := by
  obtain ⟨error | message, c⟩ := result <;> rfl

theorem close_unread (w : Watch) :
    { w with unread := left }.close = { w.close with unread := left } := by
  simp only [close, write_unread]
  split <;> rfl

theorem heed_unread (w : Watch) (n : Notice) :
    { w with unread := left }.heed n = { w.heed n with unread := left } := by
  rcases Option.eq_none_or_eq_some w.ended with hended | ⟨ending, hended⟩
  · have hended' : { w with unread := left }.ended = none := hended
    rw [heed_of_live hended, heed_of_live hended']
    cases n with
    | connected => exact write_unread left w (w.client.register w.options.filter)
    | ask info =>
      exact write_unread left w
        (w.client.answer info.token w.options.verdict w.options.delegate, w.client)
    | outcome token you uid verdict =>
      have hprint : { w with unread := left }.print token you uid verdict =
        { w.print token you uid verdict with unread := left } := rfl
      show (if w.options.once then _ else _) = { (if w.options.once then _ else _ : Watch) with
        unread := left }
      by_cases honce : w.options.once = true
      · rw [if_pos honce, if_pos honce, hprint, close_unread]
      · rw [if_neg honce, if_neg honce, hprint]
    | _ => rfl
  · have hended' : { w with unread := left }.ended = some ending := hended
    rw [heed_of_ended hended, heed_of_ended hended']

theorem foldl_heed_unread (w : Watch) (notices : List Notice) :
    notices.foldl heed { w with unread := left } =
      { notices.foldl heed w with unread := left } := by
  induction notices generalizing w with
  | nil => rfl
  | cons n notices ih =>
    simp only [List.foldl_cons, heed_unread]
    exact ih _

theorem receive_unread (w : Watch) (m : Message) :
    { w with unread := left }.receive m = { w.receive m with unread := left } := by
  rcases Option.eq_none_or_eq_some w.ended with hended | ⟨ending, hended⟩
  · have hended' : { w with unread := left }.ended = none := hended
    rcases hreceive : w.client.receive m with ⟨e | r, c⟩
    · rw [receive_of_error hended hreceive, receive_of_error hended' hreceive]
      rfl
    · rw [receive_of_ok hended hreceive, receive_of_ok hended' hreceive]
      exact foldl_heed_unread left { w with client := c, sent := w.sent ++ r.send } r.notices
  · have hended' : { w with unread := left }.ended = some ending := hended
    rw [receive_of_ended hended, receive_of_ended hended']

theorem after_unread (w : Watch) (ms : List Message) :
    { w with unread := left }.after ms = { w.after ms with unread := left } := by
  induction ms generalizing w with
  | nil => rfl
  | cons m ms ih =>
    simp only [after, List.foldl_cons, receive_unread]
    exact ih _

end Unread

end Watch

end Arbiter
