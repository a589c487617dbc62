import Arbiter.Proofs.Message.Decodability

/-!
What stands in front of every message. Its opcode and its token are looked at before the message is
read, and what is read then has the same opcode and the same token.
-/

namespace Arbiter

def Content.opcode : Content → Opcode
  | hello _ _ => .hello
  | versel _ _ => .versel
  | auth _ _ => .auth
  | authChallenge _ _ _ _ => .authChallenge
  | reply _ _ _ => .reply
  | close _ => .close
  | register _ => .register
  | unregister _ => .unregister
  | event e => if e.needsVerdict then .ask else .notify
  | answer _ _ _ => .answer
  | outcome _ you _ _ => if you then .resultYou else .resultOther
  | status _ _ _ => .status
  | csumRequest _ _ _ _ _ => .csumRequest
  | stringList _ _ _ => .stringList
  | csumMultiRequest _ _ _ _ _ => .csumMultiRequest
  | csumMultiReply _ _ _ _ => .csumMultiReply
  | retired kind => .retired kind

namespace Message

variable {m : Message} {op : Opcode} {content : Content}

theorem readToken_eq_ok {token : UInt64} :
    m.readToken = .ok token ↔ m.u64? Layout.token = some token :=
  expect_eq_ok

theorem readRegistration_token {r : Registration} (h : m.readRegistration op = .ok r) :
    m.u64? Layout.token = some r.token := by
  obtain ⟨size, -, h⟩ := bind_eq_ok.mp h
  split at h <;>
  · simp only [bind_eq_ok, readToken_eq_ok, pure, Except.pure, Except.ok.injEq] at h
    obtain ⟨-, -, token, htoken, -, -, -, -, -, -, rfl⟩ := h
    exact htoken

theorem readEvent_header {e : Event} (h : m.readEvent op = .ok e) :
    e.needsVerdict = (op == .ask) ∧ m.u64? Layout.token = some e.token := by
  obtain ⟨size, -, h⟩ := bind_eq_ok.mp h
  split at h <;>
  · simp only [bind_eq_ok, readToken_eq_ok, pure, Except.pure, Except.ok.injEq] at h
    obtain ⟨-, -, token, htoken, -, -, -, -, -, -, -, -, -, -, -, -, -, -, rfl⟩ := h
    exact ⟨rfl, htoken⟩

theorem token?_of_opcode (h : m.opcode? = some op.code) :
    m.token? = match op with
      | .hello => none
      | .retired _ => none
      | _ => m.u64? Layout.token := by
  simp only [token?, h, Option.bind_eq_bind, Option.bind_some, Opcode.ofCode?_code]
  cases op <;> rfl

theorem header_of_readContent (hop : m.opcode? = some op.code)
    (h : m.readContent op = .ok content) : content.opcode = op ∧ m.token? = content.token? := by
  rw [token?_of_opcode hop]
  cases op <;>
    simp only [readContent, readHello, readVersel, readAuth, readAuthChallenge, readReply,
      readAnswer, readOutcome, readStatus, readCsumRequest, readStringList, readCsumMultiRequest,
      readCsumMultiReply, bind_eq_ok, map_eq_ok, readToken_eq_ok, pure, Except.pure,
      Except.ok.injEq] at h ⊢
  case register =>
    obtain ⟨r, hr, rfl⟩ := h
    exact ⟨rfl, readRegistration_token hr⟩
  case unregister =>
    obtain ⟨r, hr, rfl⟩ := h
    exact ⟨rfl, readRegistration_token hr⟩
  case notify =>
    obtain ⟨e, he, rfl⟩ := h
    obtain ⟨hneeds, htoken⟩ := readEvent_header he
    exact ⟨if_neg (by simp [hneeds]), htoken⟩
  case ask =>
    obtain ⟨e, he, rfl⟩ := h
    obtain ⟨hneeds, htoken⟩ := readEvent_header he
    exact ⟨if_pos (by simp [hneeds]), htoken⟩
  all_goals grind [Content.opcode, Content.token?]

theorem opcode?_of_decode (h : m.decode = .ok content) : m.opcode? = some content.opcode.code := by
  obtain ⟨-, op, hop, hread⟩ := decode_eq_ok.mp h
  rw [(header_of_readContent hop hread).1]
  exact hop

theorem token?_of_decode (h : m.decode = .ok content) : m.token? = content.token? := by
  obtain ⟨-, op, hop, hread⟩ := decode_eq_ok.mp h
  exact (header_of_readContent hop hread).2

theorem check_eq_ok {u : Unit} : m.check = .ok u ↔ m.Sealed ∧ m.verify = .ok () := by
  simp only [check, bind_eq_ok, require_eq_ok, exists_const]

theorem check_eq_error {fault : Fault} (h : m.verify = .ok ()) :
    m.check = .error fault ↔ ¬m.Sealed ∧ fault = .badChecksum := by
  rw [check, h]
  by_cases hsealed : m.Sealed
  · rw [require_of hsealed, ok_bind]
    simp [hsealed]
  · rw [require, if_neg hsealed]
    simp [hsealed, bind, Except.bind, eq_comm]

theorem check_of_compose {fields : Bytes} (h : compose op fields = .ok m)
    (hdecode : m.decode = .ok content) : m.check = .ok () :=
  check_eq_ok.mpr ⟨sealed_of_compose h, (decode_eq_ok.mp hdecode).1⟩

theorem exists_decode {u : Unit} (h : m.check = .ok u) :
    ∃ content, m.decode = .ok content ∧ m.opcode? = some content.opcode.code := by
  obtain ⟨op, content, hop, hread⟩ := exists_content (check_eq_ok.mp h).2
  have hdecode := decode_eq_ok.mpr ⟨(check_eq_ok.mp h).2, op, hop, hread⟩
  exact ⟨content, hdecode, opcode?_of_decode hdecode⟩

theorem reply_of_opcode (hcheck : m.check = .ok ()) (hop : m.opcode? = some Opcode.reply.code) :
    ∃ token opcode error, m.decode = .ok (.reply token opcode error) := by
  obtain ⟨content, hdecode, hop'⟩ := exists_decode hcheck
  have hreply : content.opcode = .reply :=
    Opcode.code_inj.mp (Option.some.inj (hop'.symm.trans hop))
  cases content with
  | reply token opcode error => exact ⟨token, opcode, error, hdecode⟩
  | event e => cases hneeds : e.needsVerdict <;> simp [Content.opcode, hneeds] at hreply
  | outcome token you => cases you <;> cases hreply
  | _ => cases hreply

section Short

variable (token : UInt64)

theorem exists_versel (version : UInt32) : ∃ m, versel token version = .ok m := by
  unfold versel
  apply exists_compose
  simp [headerSize, trailerSize, maxSize]

theorem exists_replyTo (answered : UInt32) (error : Int32) :
    ∃ m, reply token answered error = .ok m := by
  unfold reply
  apply exists_compose
  simp [headerSize, trailerSize, maxSize]

theorem exists_close : ∃ m, close token = .ok m := by
  unfold close
  apply exists_compose
  simp [headerSize, trailerSize, maxSize]

theorem exists_registration (op : Opcode) (f : Filter) :
    ∃ m, registration op token f none = .ok m := by
  unfold registration
  apply exists_compose
  simp [headerSize, trailerSize, maxSize, filterBytes, sizeBytes, optionalText]

end Short

end Message

end Arbiter
