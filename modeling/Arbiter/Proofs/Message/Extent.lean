import Mathlib.Algebra.GroupWithZero.Nat
import Arbiter.Proofs.Message.RoundTrip

/-!
How long a message is, told from what it is written from: the fixed part of its kind and all that
has no fixed length, a terminator for each text and a header for each record. Whether a draft can be
written depends on that length alone once its parts can be encoded.
-/

namespace Arbiter

def textSize (text : Option Bytes) : Nat :=
  match text with
  | none => 0
  | some text => text.length + 1

def RequestRecord.size (r : RequestRecord) : Nat :=
  Layout.RequestRecord.payload + r.checksum.length + (r.path.length + 1)

def ReplyRecord.size (r : ReplyRecord) : Nat := Layout.ReplyRecord.payload + r.checksum.length

namespace Draft

def bodySize : Draft → Nat
  | hello _ _ => Layout.Hello.bodyEnd
  | versel _ _ => Layout.Versel.bodyEnd
  | auth _ _ => Layout.Auth.bodyEnd
  | authChallenge _ _ challenge keyId =>
    Layout.AuthChallenge.payload + challenge.length + keyId.length
  | reply _ _ _ => Layout.Reply.bodyEnd
  | close _ => Layout.Close.bodyEnd
  | register r => Layout.Registration.payload + textSize r.label
  | unregister _ _ => Layout.Registration.payload
  | event e => Layout.Event.payload + e.checksum.length + textSize e.path + e.detail.length
  | answer _ _ _ => Layout.Answer.bodyEnd
  | outcome _ _ _ _ => Layout.Outcome.bodyEnd
  | status _ _ _ => Layout.Status.bodyEnd
  | csumRequest _ _ _ keyId path => Layout.CsumRequest.payload + keyId.length + (path.length + 1)
  | stringList _ _ strings => Layout.StringList.payload + (strings.map (·.length + 1)).sum
  | csumMultiRequest _ _ _ keyId records =>
    Layout.CsumMultiRequest.payload + keyId.length + (records.map RequestRecord.size).sum
  | csumMultiReply _ _ _ records =>
    Layout.CsumMultiReply.payload + (records.map ReplyRecord.size).sum

def Encodable : Draft → Prop
  | stringList _ _ strings => ∀ s ∈ strings, 0 ∉ s
  | csumMultiRequest _ _ _ _ records => ∀ r ∈ records, r.size < UInt32.size
  | csumMultiReply _ _ _ records => ∀ r ∈ records, r.size < UInt32.size
  | _ => True

end Draft

namespace Message

variable {op : Opcode} {fields : Bytes}

theorem length_terminated (text : Bytes) : (terminated text).length = text.length + 1 :=
  List.length_append

theorem length_optionalText (text : Option Bytes) : (optionalText text).length = textSize text := by
  cases text with
  | none => rfl
  | some text => exact length_terminated text

theorem length_flatMap_terminated (strings : List Bytes) :
    (strings.flatMap terminated).length = (strings.map (·.length + 1)).sum := by
  simp [List.length_flatMap, length_terminated]

theorem requestRecord_of_size {r : RequestRecord} (h : r.size < UInt32.size) :
    ∃ bytes, requestRecord r = .ok bytes ∧ bytes.length = r.size := by
  have hsize : Layout.RequestRecord.payload + r.checksum.length + (terminated r.path).length =
      r.size := by
    simp [RequestRecord.size, terminated]
  simp only [requestRecord, hsize, if_pos h]
  refine ⟨_, rfl, ?_⟩
  simp [sizeBytes, terminated, RequestRecord.size, Layout.RequestRecord.payload]
  omega

theorem replyRecord_of_size {r : ReplyRecord} (h : r.size < UInt32.size) :
    ∃ bytes, replyRecord r = .ok bytes ∧ bytes.length = r.size := by
  simp only [ReplyRecord.size] at h
  simp only [replyRecord, if_pos h]
  refine ⟨_, rfl, ?_⟩
  simp [sizeBytes, ReplyRecord.size, Layout.ReplyRecord.payload]
  omega

theorem exists_mapM {α : Type} {write : α → Except Fault Bytes} (size : α → Nat) {records : List α}
    (h : ∀ r ∈ records, ∃ bytes, write r = .ok bytes ∧ bytes.length = size r) :
    ∃ encoded, records.mapM write = .ok encoded ∧
      encoded.flatten.length = (records.map size).sum := by
  induction records with
  | nil => exact ⟨[], rfl, rfl⟩
  | cons r records ih =>
    obtain ⟨bytes, hbytes, hlength⟩ := h r List.mem_cons_self
    obtain ⟨encoded, hencoded, hrest⟩ := ih fun r' hr' => h r' (List.mem_cons_of_mem r hr')
    refine ⟨bytes :: encoded, ?_, ?_⟩
    · rw [List.mapM_cons, hbytes, ok_bind, hencoded, ok_bind]
      rfl
    · rw [List.flatten_cons, List.length_append, hlength, hrest, List.map_cons, List.sum_cons]

theorem compose_eq_error (h : maxSize < headerSize + fields.length + trailerSize) :
    compose op fields = .error (.tooLarge (headerSize + fields.length)) :=
  if_neg (Nat.not_le.mpr h)

end Message

namespace Draft

open Message

variable {d : Draft} {m : Message}

theorem write_eq_compose (h : d.Encodable) :
    ∃ op fields, d.write = compose op fields ∧ headerSize + fields.length = d.bodySize := by
  cases d with
  | stringList token flags strings =>
    have hwrite : (stringList token flags strings).write =
        compose .stringList (u64Bytes token ++ (u32Bytes flags ++ strings.flatMap terminated)) := by
      have hstrings : ∀ s ∈ strings, 0 ∉ s := h
      rw [write, Message.stringList, require_of hstrings, ok_bind]
    refine ⟨_, _, hwrite, ?_⟩
    simp only [List.length_append, length_u64Bytes, length_u32Bytes, length_flatMap_terminated,
      headerSize, bodySize, Layout.StringList.payload]
    omega
  | csumMultiRequest token operation uid keyId records =>
    obtain ⟨encoded, hencoded, hlength⟩ := exists_mapM RequestRecord.size
      fun r hr => requestRecord_of_size (h r hr)
    refine ⟨.csumMultiRequest, _, by rw [write, Message.csumMultiRequest, hencoded, ok_bind], ?_⟩
    simp only [List.length_append, length_u64Bytes, length_u32Bytes, sizeBytes,
      BigEndian.length_encode, hlength, headerSize, bodySize, Layout.CsumMultiRequest.payload]
    omega
  | csumMultiReply token operation error records =>
    obtain ⟨encoded, hencoded, hlength⟩ := exists_mapM ReplyRecord.size
      fun r hr => replyRecord_of_size (h r hr)
    refine ⟨.csumMultiReply, _, by rw [write, Message.csumMultiReply, hencoded, ok_bind], ?_⟩
    simp only [List.length_append, length_u64Bytes, length_u32Bytes, length_i32Bytes, sizeBytes,
      BigEndian.length_encode, hlength, headerSize, bodySize, Layout.CsumMultiReply.payload]
    omega
  | _ =>
    simp only [write, Message.hello, Message.versel, Message.auth, Message.authChallenge,
      Message.reply, Message.close, Message.register, Message.unregister, Message.registration,
      Message.event, Message.answer, Message.outcome, Message.status, Message.csumRequest]
    refine ⟨_, _, rfl, ?_⟩
    simp only [List.length_append, length_u64Bytes, length_u32Bytes, length_i32Bytes, sizeBytes,
      BigEndian.length_encode, filterBytes, length_optionalText, length_terminated, textSize,
      headerSize, bodySize, Layout.Hello.bodyEnd, Layout.Versel.bodyEnd, Layout.Auth.bodyEnd,
      Layout.AuthChallenge.payload, Layout.Reply.bodyEnd, Layout.Close.bodyEnd,
      Layout.Registration.payload, Layout.Event.payload, Layout.Answer.bodyEnd,
      Layout.Outcome.bodyEnd, Layout.Status.bodyEnd, Layout.CsumRequest.payload] <;>
    omega

theorem exists_write (h : d.Encodable) (hfits : d.bodySize + trailerSize ≤ maxSize) :
    ∃ m, d.write = .ok m ∧ m.size = d.bodySize + trailerSize := by
  obtain ⟨op, fields, hwrite, hlength⟩ := write_eq_compose h
  rw [← hlength] at hfits ⊢
  obtain ⟨m, hm⟩ : ∃ m, compose op fields = .ok m := exists_compose hfits
  exact ⟨m, hwrite.trans hm, size_of_compose hm⟩

theorem write_eq_error (h : d.Encodable) (hlarge : maxSize < d.bodySize + trailerSize) :
    d.write = .error (.tooLarge d.bodySize) := by
  obtain ⟨op, fields, hwrite, hlength⟩ := write_eq_compose h
  rw [← hlength] at hlarge ⊢
  exact hwrite.trans (compose_eq_error hlarge)

end Draft

end Arbiter
