import Arbiter.Proofs.Message.Placement

/-!
What can be written. Each kind of message is put into its place by a plan of its own, and that is
the message composed of the same parts. No part is ever without room, so a message fails to be
written in three ways only: a string of a list holds the byte that would end it, a record is too
long for its length field, or the whole is longer than a message may be.
-/

namespace Arbiter

namespace Message

def optionalSize (text : Option Bytes) : Nat := (text.map terminatedSize).getD 0

def textParts (base start : Nat) (text : Option Bytes) : List Part :=
  text.toList.map (.region base start)

def placeRequestRecord (r : RequestRecord) : Except Fault Bytes := do
  let size ← total [Layout.RequestRecord.payload, r.checksum.length, terminatedSize r.path]
  let size ← size32 size "record"
  let checksumSize ← size32 r.checksum.length "record checksum"
  let pathSize ← size32 (terminatedSize r.path) "record path"
  return u32Bytes size ++ (u32Bytes r.index ++ (u32Bytes checksumSize ++ (u32Bytes pathSize ++
    (r.checksum ++ terminated r.path))))

def placeReplyRecord (r : ReplyRecord) : Except Fault Bytes := do
  let size ← total [Layout.ReplyRecord.payload, r.checksum.length]
  let size ← size32 size "record"
  let checksumSize ← size32 r.checksum.length "record checksum"
  return u32Bytes size ++ (u32Bytes r.index ++ (i32Bytes r.error ++ (u32Bytes checksumSize ++
    r.checksum)))

end Message

namespace Draft

open Message

def registrationPlan (op : Opcode) (token : UInt64) (filter : Filter) (label : Option Bytes) :
    Plan where
  opcode := op
  sizes := [Layout.Registration.payload, optionalSize label]
  parts := [.u64 Layout.token token, .u32 Layout.Registration.uid filter.uid,
    .u32 Layout.Registration.ruleId filter.ruleId,
    .u32 Layout.Registration.subsystem filter.subsystem,
    .size Layout.Registration.labelSize (optionalSize label) "label"] ++
    textParts Layout.Registration.payload 0 label

def eventPlan (e : Event) (pathSize detailStart : Nat) : Plan where
  opcode := if e.needsVerdict then .ask else .notify
  sizes := [Layout.Event.payload, detailStart, e.detail.length]
  parts := [.u64 Layout.token e.token, .u32 Layout.Event.pid e.pid, .u32 Layout.Event.uid e.uid,
    .u32 Layout.Event.ruleId e.ruleId, .u32 Layout.Event.subsystem e.subsystem,
    .u32 Layout.Event.priority e.priority, .size Layout.Event.checksumStart 0 "checksum",
    .size Layout.Event.checksumSize e.checksum.length "checksum",
    .size Layout.Event.pathStart e.checksum.length "path",
    .size Layout.Event.pathSize pathSize "path",
    .size Layout.Event.detailStart detailStart "event",
    .size Layout.Event.detailSize e.detail.length "event",
    .region Layout.Event.payload 0 e.checksum] ++
    (textParts Layout.Event.payload e.checksum.length e.path ++
    [.region Layout.Event.payload detailStart e.detail])

def stringListPlan (token : UInt64) (flags : UInt32) (payload : Bytes) : Plan where
  opcode := .stringList
  sizes := [Layout.StringList.payload, payload.length]
  parts := [.u64 Layout.token token, .u32 Layout.StringList.flags flags,
    .region Layout.StringList.payload 0 payload]

def csumMultiRequestPlan (token : UInt64) (operation uid : UInt32) (keyId : Bytes) (count : Nat)
    (encoded : Bytes) : Plan where
  opcode := .csumMultiRequest
  sizes := [Layout.CsumMultiRequest.payload, keyId.length, encoded.length]
  parts := [.u64 Layout.token token, .u32 Layout.CsumMultiRequest.operation operation,
    .u32 Layout.CsumMultiRequest.uid uid,
    .size Layout.CsumMultiRequest.keyIdSize keyId.length "key id",
    .size Layout.CsumMultiRequest.count count "records",
    .region Layout.CsumMultiRequest.payload 0 keyId,
    .region Layout.CsumMultiRequest.payload keyId.length encoded]

def csumMultiReplyPlan (token : UInt64) (operation : UInt32) (error : Int32) (count : Nat)
    (encoded : Bytes) : Plan where
  opcode := .csumMultiReply
  sizes := [Layout.CsumMultiReply.payload, encoded.length]
  parts := [.u64 Layout.token token, .u32 Layout.CsumMultiReply.operation operation,
    .i32 Layout.CsumMultiReply.error error,
    .size Layout.CsumMultiReply.count count "records",
    .region Layout.CsumMultiReply.payload 0 encoded]

def plan : Draft → Except Fault Plan
  | hello version minVersion => .ok ⟨.hello, [Layout.Hello.bodyEnd],
      [.u32 Layout.Hello.version version, .u32 Layout.Hello.minVersion minVersion]⟩
  | versel token version => .ok ⟨.versel, [Layout.Versel.bodyEnd],
      [.u64 Layout.token token, .u32 Layout.Versel.version version]⟩
  | auth token authType => .ok ⟨.auth, [Layout.Auth.bodyEnd],
      [.u64 Layout.token token, .u32 Layout.Auth.authType authType]⟩
  | authChallenge token authType challenge keyId => .ok ⟨.authChallenge,
      [Layout.AuthChallenge.payload, challenge.length, keyId.length],
      [.u64 Layout.token token, .u32 Layout.AuthChallenge.authType authType,
        .size Layout.AuthChallenge.challengeSize challenge.length "challenge",
        .size Layout.AuthChallenge.keyIdSize keyId.length "key id",
        .region Layout.AuthChallenge.payload 0 challenge,
        .region Layout.AuthChallenge.payload challenge.length keyId]⟩
  | reply token answered error => .ok ⟨.reply, [Layout.Reply.bodyEnd],
      [.u64 Layout.token token, .u32 Layout.Reply.opcode answered,
        .i32 Layout.Reply.error error]⟩
  | close token => .ok ⟨.close, [Layout.Close.bodyEnd], [.u64 Layout.token token]⟩
  | register r => .ok (registrationPlan .register r.token r.filter r.label)
  | unregister token filter => .ok (registrationPlan .unregister token filter none)
  | event e => do
    let pathSize := optionalSize e.path
    return eventPlan e pathSize (← total [e.checksum.length, pathSize])
  | answer token verdict delegate => .ok ⟨.answer, [Layout.Answer.bodyEnd],
      [.u64 Layout.token token, .i32 Layout.Answer.verdict verdict.code,
        .u32 Layout.Answer.delegate (if delegate then 1 else 0)]⟩
  | outcome token you uid verdict => .ok ⟨if you then .resultYou else .resultOther,
      [Layout.Outcome.bodyEnd],
      [.u64 Layout.token token, .u32 Layout.Outcome.uid uid,
        .i32 Layout.Outcome.verdict verdict.code]⟩
  | status token key value => .ok ⟨.status, [Layout.Status.bodyEnd],
      [.u64 Layout.token token, .u32 Layout.Status.key key, .u32 Layout.Status.value value]⟩
  | csumRequest token operation uid keyId path => .ok ⟨.csumRequest,
      [Layout.CsumRequest.payload, keyId.length, terminatedSize path],
      [.u64 Layout.token token, .u32 Layout.CsumRequest.operation operation,
        .u32 Layout.CsumRequest.uid uid,
        .size Layout.CsumRequest.keyIdSize keyId.length "key id",
        .size Layout.CsumRequest.pathSize (terminatedSize path) "path",
        .region Layout.CsumRequest.payload 0 keyId,
        .region Layout.CsumRequest.payload keyId.length path]⟩
  | stringList token flags strings => do
    require (∀ s ∈ strings, 0 ∉ s) (.unterminated .stringList "strings")
    return stringListPlan token flags (strings.flatMap terminated)
  | csumMultiRequest token operation uid keyId records => do
    let encoded ← records.mapM placeRequestRecord
    return csumMultiRequestPlan token operation uid keyId records.length encoded.flatten
  | csumMultiReply token operation error records => do
    let encoded ← records.mapM placeReplyRecord
    return csumMultiReplyPlan token operation error records.length encoded.flatten

def place (d : Draft) : Except Fault Message := do (← d.plan).place

end Draft

namespace Message

theorem optionalSize_eq {text : Option Bytes} (h : textSize text < UInt64.size) :
    optionalSize text = textSize text := by
  cases text with
  | none => rfl
  | some text => exact terminatedSize_eq h

theorem requestRecord_of_large {r : RequestRecord} (h : UInt32.size ≤ r.size) :
    requestRecord r = .error (.regionTooLarge "record") := by
  rw [RequestRecord.size, ← length_terminated] at h
  exact if_neg (Nat.not_lt.mpr h)

theorem replyRecord_of_large {r : ReplyRecord} (h : UInt32.size ≤ r.size) :
    replyRecord r = .error (.regionTooLarge "record") :=
  if_neg (Nat.not_lt.mpr h)

theorem requestRecord_or_error (r : RequestRecord) :
    (∃ bytes, requestRecord r = .ok bytes) ∨
      requestRecord r = .error (.regionTooLarge "record") := by
  rcases Nat.lt_or_ge r.size UInt32.size with hsize | hlarge
  · obtain ⟨bytes, hbytes, -⟩ := requestRecord_of_size hsize
    exact .inl ⟨bytes, hbytes⟩
  · exact .inr (requestRecord_of_large hlarge)

theorem replyRecord_or_error (r : ReplyRecord) :
    (∃ bytes, replyRecord r = .ok bytes) ∨ replyRecord r = .error (.regionTooLarge "record") := by
  rcases Nat.lt_or_ge r.size UInt32.size with hsize | hlarge
  · obtain ⟨bytes, hbytes, -⟩ := replyRecord_of_size hsize
    exact .inl ⟨bytes, hbytes⟩
  · exact .inr (replyRecord_of_large hlarge)

theorem placeRequestRecord_eq {r : RequestRecord} (h : r.size < UInt64.size) :
    placeRequestRecord r = requestRecord r := by
  have hpath : terminatedSize r.path = r.path.length + 1 := by
    apply terminatedSize_eq
    rw [RequestRecord.size] at h
    omega
  have hsum : [Layout.RequestRecord.payload, r.checksum.length, r.path.length + 1].sum =
      r.size := by
    simp only [List.sum_cons, List.sum_nil, RequestRecord.size]
    omega
  rw [placeRequestRecord, hpath, total_eq (by rwa [hsum]), hsum, ok_bind]
  rcases Nat.lt_or_ge r.size UInt32.size with hsize | hlarge
  · have hparts : r.checksum.length < UInt32.size ∧ r.path.length + 1 < UInt32.size := by
      rw [RequestRecord.size] at hsize
      omega
    obtain ⟨size, hword, hbytes⟩ := size32_eq "record" hsize
    obtain ⟨checksumSize, hword', hbytes'⟩ := size32_eq "record checksum" hparts.1
    obtain ⟨pathSize, hword'', hbytes''⟩ := size32_eq "record path" hparts.2
    rw [hword, hword', hword'', ok_bind, ok_bind, ok_bind, hbytes, hbytes', hbytes'']
    simp only [requestRecord, length_terminated]
    exact (if_pos hsize).symm
  · rw [size32, if_neg (Nat.not_lt.mpr hlarge), requestRecord_of_large hlarge]
    rfl

theorem placeReplyRecord_eq {r : ReplyRecord} (h : r.size < UInt64.size) :
    placeReplyRecord r = replyRecord r := by
  have hsum : [Layout.ReplyRecord.payload, r.checksum.length].sum = r.size := by
    simp only [List.sum_cons, List.sum_nil, ReplyRecord.size]
    omega
  rw [placeReplyRecord, total_eq (by rwa [hsum]), hsum, ok_bind]
  rcases Nat.lt_or_ge r.size UInt32.size with hsize | hlarge
  · have hchecksum : r.checksum.length < UInt32.size := by
      rw [ReplyRecord.size] at hsize
      omega
    obtain ⟨size, hword, hbytes⟩ := size32_eq "record" hsize
    obtain ⟨checksumSize, hword', hbytes'⟩ := size32_eq "record checksum" hchecksum
    rw [hword, hword', ok_bind, ok_bind, hbytes, hbytes']
    exact (if_pos hsize).symm
  · rw [size32, if_neg (Nat.not_lt.mpr hlarge), replyRecord_of_large hlarge]
    rfl

theorem mapM_place {α : Type} {place write : α → Except Fault Bytes} (size : α → Nat)
    (heq : ∀ {r}, size r < UInt64.size → place r = write r) {records : List α}
    (h : (records.map size).sum < UInt64.size) : records.mapM place = records.mapM write := by
  induction records with
  | nil => rfl
  | cons r records ih =>
    rw [List.map_cons, List.sum_cons] at h
    rw [List.mapM_cons, List.mapM_cons, heq (by omega), ih (by omega)]

theorem mapM_eq_error {α : Type} {write : α → Except Fault Bytes} {fault : Fault}
    (hwrite : ∀ r, (∃ bytes, write r = .ok bytes) ∨ write r = .error fault) {records : List α}
    {r : α} (hr : r ∈ records) (hfail : write r = .error fault) :
    records.mapM write = .error fault := by
  induction records with
  | nil => cases hr
  | cons r' records ih =>
    rw [List.mapM_cons]
    rcases hwrite r' with ⟨bytes, hbytes⟩ | hfault
    · have hrest : r ∈ records := by
        rcases List.mem_cons.mp hr with rfl | hrest
        · rw [hfail] at hbytes
          cases hbytes
        · exact hrest
      rw [hbytes, ok_bind, ih hrest]
      rfl
    · rw [hfault]
      rfl

end Message

namespace Tiles

open Message

variable {place base start : Nat} {parts : List Part} {rest : Bytes}

theorem terminated {text : Bytes} (hstart : base + start = place)
    (h : Tiles (place + text.length + 1) parts rest) :
    Tiles place (.region base start text :: parts) (Message.terminated text ++ rest) := by
  rw [Message.terminated, List.append_assoc]
  exact .part hstart trivial (.gap h)

theorem text {text : Option Bytes} (hstart : base + start = place)
    (h : Tiles (place + textSize text) parts rest) :
    Tiles place (textParts base start text ++ parts) (optionalText text ++ rest) := by
  cases text with
  | none => exact h
  | some text => exact Tiles.terminated hstart h

end Tiles

namespace Draft

open Message

variable {d : Draft} {p : Plan} {op : Opcode} {fields : Bytes}

theorem length_of_write_eq (h : d.Encodable) (hwrite : d.write = compose op fields) :
    headerSize + fields.length = d.bodySize := by
  rcases Nat.lt_or_ge maxSize (d.bodySize + trailerSize) with hlarge | hfits
  · have herror := write_eq_error h hlarge
    rw [hwrite, compose] at herror
    split at herror
    · cases herror
    · exact Fault.tooLarge.inj (Except.error.inj herror)
  · obtain ⟨m, hm, hsize⟩ := exists_write h hfits
    have hcomposed := size_of_compose (hwrite.symm.trans hm)
    omega

structure Planned (d : Draft) (p : Plan) (fields : Bytes) : Prop where
  plan : d.plan = .ok p
  encodable : d.Encodable
  write : d.write = compose p.opcode fields
  sizes : p.sizes.sum = d.bodySize
  tiles : d.bodySize + trailerSize ≤ maxSize → Tiles headerSize p.parts fields

theorem Planned.spells (h : Planned d p fields) : p.Spells fields where
  sizes := h.sizes.trans (length_of_write_eq h.encodable h.write).symm
  tiles hfits := h.tiles (h.sizes ▸ hfits)

section Kinds

variable (token : UInt64)

theorem planned_authChallenge (authType : UInt32) (challenge keyId : Bytes) :
    ∃ p fields, Planned (authChallenge token authType challenge keyId) p fields := by
  refine ⟨_, _, rfl, trivial, rfl, ?_, ?_⟩
  · simp only [List.sum_cons, List.sum_nil, bodySize]
    omega
  · intro hfits
    simp only [bodySize] at hfits
    have hchallenge : challenge.length ≤ maxSize := by omega
    have hkeyId : keyId.length ≤ maxSize := by omega
    refine .part rfl trivial ?_
    refine .part rfl trivial ?_
    refine .part rfl hchallenge ?_
    refine .part rfl hkeyId ?_
    refine .part rfl trivial ?_
    exact .last rfl trivial

theorem tiles_registration {filter : Filter} {label : Option Bytes} (op : Opcode)
    (hlabel : optionalSize label = textSize label)
    (hfits : Layout.Registration.payload + textSize label + trailerSize ≤ maxSize) :
    Tiles headerSize (registrationPlan op token filter label).parts
      (u64Bytes token ++ (filterBytes filter ++ (sizeBytes (textSize label) ++
        optionalText label))) := by
  have hsmall : textSize label ≤ maxSize := by omega
  have htext : Tiles 32 (textParts Layout.Registration.payload 0 label ++ [])
      (optionalText label ++ []) :=
    .text rfl .nil
  rw [List.append_nil, List.append_nil] at htext
  simp only [registrationPlan, hlabel, filterBytes, List.append_assoc]
  refine .part rfl trivial ?_
  refine .part rfl trivial ?_
  refine .part rfl trivial ?_
  refine .part rfl trivial ?_
  exact .part rfl hsmall htext

theorem planned_register (r : Registration) (hword : (register r).bodySize < UInt64.size) :
    ∃ p fields, Planned (register r) p fields := by
  have hlabel : optionalSize r.label = textSize r.label := by
    apply optionalSize_eq
    rw [bodySize] at hword
    omega
  refine ⟨_, _, rfl, trivial, rfl, ?_, ?_⟩
  · simp only [registrationPlan, List.sum_cons, List.sum_nil, bodySize, hlabel, Nat.add_zero]
  · intro hfits
    rw [length_optionalText]
    exact tiles_registration r.token .register hlabel hfits

theorem planned_unregister (filter : Filter) :
    ∃ p fields, Planned (unregister token filter) p fields := by
  have hwrite : (unregister token filter).write = compose .unregister (u64Bytes token ++
      (filterBytes filter ++ (sizeBytes (textSize none) ++ optionalText none))) := by
    rw [write, Message.unregister, registration, length_optionalText]
  refine ⟨_, _, rfl, trivial, hwrite, rfl, ?_⟩
  intro hfits
  exact tiles_registration token .unregister rfl hfits

theorem planned_event (e : Event) (hword : (event e).bodySize < UInt64.size) :
    ∃ p fields, Planned (event e) p fields := by
  simp only [bodySize] at hword
  have hpath : optionalSize e.path = textSize e.path := optionalSize_eq (by omega)
  have hsum : [e.checksum.length, textSize e.path].sum = e.checksum.length + textSize e.path := by
    simp only [List.sum_cons, List.sum_nil, Nat.add_zero]
  have htotal : total [e.checksum.length, textSize e.path] =
      .ok (e.checksum.length + textSize e.path) := by
    rw [total_eq (by rw [hsum]; omega), hsum]
  have hplan : (event e).plan =
      .ok (eventPlan e (textSize e.path) (e.checksum.length + textSize e.path)) := by
    rw [plan, hpath, htotal]
    rfl
  refine ⟨_, _, hplan, trivial, rfl, ?_, ?_⟩
  · simp only [eventPlan, List.sum_cons, List.sum_nil, bodySize]
    omega
  · intro hfits
    simp only [bodySize] at hfits
    have hchecksum : e.checksum.length ≤ maxSize := by omega
    have hpath : textSize e.path ≤ maxSize := by omega
    have hstart : e.checksum.length + textSize e.path ≤ maxSize := by omega
    have hdetail : e.detail.length ≤ maxSize := by omega
    have hregions : Tiles (60 + e.checksum.length)
        (textParts Layout.Event.payload e.checksum.length e.path ++
          [.region Layout.Event.payload (e.checksum.length + textSize e.path) e.detail])
        (optionalText e.path ++ e.detail) :=
      .text rfl (.last (Nat.add_assoc ..).symm trivial)
    rw [length_optionalText]
    simp only [filterBytes, List.append_assoc]
    refine .part rfl trivial ?_
    refine .part rfl trivial ?_
    refine .part rfl trivial ?_
    refine .part rfl trivial ?_
    refine .part rfl trivial ?_
    refine .part rfl trivial ?_
    refine .part rfl (Nat.zero_le _) ?_
    refine .part rfl hchecksum ?_
    refine .part rfl hchecksum ?_
    refine .part rfl hpath ?_
    refine .part rfl hstart ?_
    refine .part rfl hdetail ?_
    exact .part rfl trivial hregions

theorem planned_csumRequest (operation uid : UInt32) (keyId path : Bytes)
    (hword : (csumRequest token operation uid keyId path).bodySize < UInt64.size) :
    ∃ p fields, Planned (csumRequest token operation uid keyId path) p fields := by
  have hpath : terminatedSize path = path.length + 1 := by
    apply terminatedSize_eq
    rw [bodySize] at hword
    omega
  refine ⟨_, _, rfl, trivial, rfl, ?_, ?_⟩
  · simp only [List.sum_cons, List.sum_nil, bodySize, hpath]
    omega
  · intro hfits
    simp only [bodySize] at hfits
    have hkeyId : keyId.length ≤ maxSize := by omega
    have hsmall : path.length + 1 ≤ maxSize := by omega
    have htext : Tiles (32 + keyId.length)
        [.region Layout.CsumRequest.payload keyId.length path] (terminated path ++ []) :=
      .terminated rfl .nil
    rw [List.append_nil] at htext
    rw [hpath, length_terminated]
    refine .part rfl trivial ?_
    refine .part rfl trivial ?_
    refine .part rfl trivial ?_
    refine .part rfl hkeyId ?_
    refine .part rfl hsmall ?_
    exact .part rfl trivial htext

theorem planned_stringList (flags : UInt32) {strings : List Bytes} (h : ∀ s ∈ strings, 0 ∉ s) :
    ∃ p fields, Planned (stringList token flags strings) p fields := by
  have hplan : (stringList token flags strings).plan =
      .ok (stringListPlan token flags (strings.flatMap terminated)) := by
    rw [plan, require_of h]
    rfl
  have hwrite : (stringList token flags strings).write = compose .stringList
      (u64Bytes token ++ (u32Bytes flags ++ strings.flatMap terminated)) := by
    rw [write, Message.stringList, require_of h, ok_bind]
  refine ⟨_, _, hplan, h, hwrite, ?_, ?_⟩
  · simp only [stringListPlan, List.sum_cons, List.sum_nil, bodySize, length_flatMap_terminated,
      Nat.add_zero]
  · intro _
    refine .part rfl trivial ?_
    refine .part rfl trivial ?_
    exact .last rfl trivial

theorem mapM_placeRequestRecord {operation uid : UInt32} {keyId : Bytes}
    {records : List RequestRecord}
    (hword : (csumMultiRequest token operation uid keyId records).bodySize < UInt64.size) :
    records.mapM placeRequestRecord = records.mapM requestRecord := by
  simp only [bodySize] at hword
  exact mapM_place RequestRecord.size placeRequestRecord_eq (by omega)

theorem mapM_placeReplyRecord {operation : UInt32} {error : Int32} {records : List ReplyRecord}
    (hword : (csumMultiReply token operation error records).bodySize < UInt64.size) :
    records.mapM placeReplyRecord = records.mapM replyRecord := by
  simp only [bodySize] at hword
  exact mapM_place ReplyRecord.size placeReplyRecord_eq (by omega)

theorem planned_csumMultiRequest (operation uid : UInt32) (keyId : Bytes)
    {records : List RequestRecord} (h : ∀ r ∈ records, r.size < UInt32.size)
    (hword : (csumMultiRequest token operation uid keyId records).bodySize < UInt64.size) :
    ∃ p fields, Planned (csumMultiRequest token operation uid keyId records) p fields := by
  obtain ⟨encoded, hencoded, hlength⟩ := exists_mapM RequestRecord.size
    fun r hr => requestRecord_of_size (h r hr)
  have hcount := length_mapM one_le_length_requestRecord hencoded
  have hplan : (csumMultiRequest token operation uid keyId records).plan =
      .ok (csumMultiRequestPlan token operation uid keyId records.length encoded.flatten) := by
    rw [plan, mapM_placeRequestRecord token hword, hencoded]
    rfl
  have hwrite : (csumMultiRequest token operation uid keyId records).write =
      compose .csumMultiRequest (u64Bytes token ++ (u32Bytes operation ++ (u32Bytes uid ++
        (sizeBytes keyId.length ++ (sizeBytes records.length ++
          (keyId ++ encoded.flatten)))))) := by
    rw [write, Message.csumMultiRequest, hencoded, ok_bind]
  refine ⟨_, _, hplan, h, hwrite, ?_, ?_⟩
  · simp only [csumMultiRequestPlan, List.sum_cons, List.sum_nil, bodySize, hlength]
    omega
  · intro hfits
    simp only [bodySize] at hfits
    have hkeyId : keyId.length ≤ maxSize := by omega
    have hsmall : records.length ≤ maxSize := by omega
    refine .part rfl trivial ?_
    refine .part rfl trivial ?_
    refine .part rfl trivial ?_
    refine .part rfl hkeyId ?_
    refine .part rfl hsmall ?_
    refine .part rfl trivial ?_
    exact .last rfl trivial

theorem planned_csumMultiReply (operation : UInt32) (error : Int32) {records : List ReplyRecord}
    (h : ∀ r ∈ records, r.size < UInt32.size)
    (hword : (csumMultiReply token operation error records).bodySize < UInt64.size) :
    ∃ p fields, Planned (csumMultiReply token operation error records) p fields := by
  obtain ⟨encoded, hencoded, hlength⟩ := exists_mapM ReplyRecord.size
    fun r hr => replyRecord_of_size (h r hr)
  have hcount := length_mapM one_le_length_replyRecord hencoded
  have hplan : (csumMultiReply token operation error records).plan =
      .ok (csumMultiReplyPlan token operation error records.length encoded.flatten) := by
    rw [plan, mapM_placeReplyRecord token hword, hencoded]
    rfl
  have hwrite : (csumMultiReply token operation error records).write =
      compose .csumMultiReply (u64Bytes token ++ (u32Bytes operation ++ (i32Bytes error ++
        (sizeBytes records.length ++ encoded.flatten)))) := by
    rw [write, Message.csumMultiReply, hencoded, ok_bind]
  refine ⟨_, _, hplan, h, hwrite, ?_, ?_⟩
  · simp only [csumMultiReplyPlan, List.sum_cons, List.sum_nil, bodySize, hlength]
    omega
  · intro hfits
    simp only [bodySize] at hfits
    have hsmall : records.length ≤ maxSize := by omega
    refine .part rfl trivial ?_
    refine .part rfl trivial ?_
    refine .part rfl trivial ?_
    refine .part rfl hsmall ?_
    exact .last rfl trivial

end Kinds

theorem exists_planned (h : d.Encodable) (hword : d.bodySize < UInt64.size) :
    ∃ p fields, Planned d p fields := by
  cases d with
  -- A kind of fixed length is compared with what composes it by name, before that is computed.
  | hello version minVersion =>
    have hwrite : (hello version minVersion).write = Message.hello version minVersion := rfl
    exact ⟨_, _, rfl, trivial, hwrite, rfl, fun _ => .part rfl trivial (.last rfl trivial)⟩
  | versel token version =>
    have hwrite : (versel token version).write = Message.versel token version := rfl
    exact ⟨_, _, rfl, trivial, hwrite, rfl, fun _ => .part rfl trivial (.last rfl trivial)⟩
  | auth token authType =>
    have hwrite : (auth token authType).write = Message.auth token authType := rfl
    exact ⟨_, _, rfl, trivial, hwrite, rfl, fun _ => .part rfl trivial (.last rfl trivial)⟩
  | authChallenge token authType challenge keyId =>
    exact planned_authChallenge token authType challenge keyId
  | reply token answered error =>
    have hwrite : (reply token answered error).write = Message.reply token answered error := rfl
    rw [Message.reply, List.append_assoc] at hwrite
    exact ⟨_, _, rfl, trivial, hwrite, rfl, fun _ =>
      .part rfl trivial (.part rfl trivial (.last rfl trivial))⟩
  | close token =>
    have hwrite : (close token).write = Message.close token := rfl
    exact ⟨_, _, rfl, trivial, hwrite, rfl, fun _ => .last rfl trivial⟩
  | register r => exact planned_register r hword
  | unregister token filter => exact planned_unregister token filter
  | event e => exact planned_event e hword
  | answer token verdict delegate =>
    have hwrite : (answer token verdict delegate).write =
        Message.answer token verdict delegate := rfl
    rw [Message.answer, List.append_assoc] at hwrite
    exact ⟨_, _, rfl, trivial, hwrite, rfl, fun _ =>
      .part rfl trivial (.part rfl trivial (.last rfl trivial))⟩
  | outcome token you uid verdict =>
    have hwrite : (outcome token you uid verdict).write =
        Message.outcome token you uid verdict := rfl
    rw [Message.outcome, List.append_assoc] at hwrite
    exact ⟨_, _, rfl, trivial, hwrite, rfl, fun _ =>
      .part rfl trivial (.part rfl trivial (.last rfl trivial))⟩
  | status token key value =>
    have hwrite : (status token key value).write = Message.status token key value := rfl
    rw [Message.status, List.append_assoc] at hwrite
    exact ⟨_, _, rfl, trivial, hwrite, rfl, fun _ =>
      .part rfl trivial (.part rfl trivial (.last rfl trivial))⟩
  | csumRequest token operation uid keyId path =>
    exact planned_csumRequest token operation uid keyId path hword
  | stringList token flags strings => exact planned_stringList token flags h
  | csumMultiRequest token operation uid keyId records =>
    exact planned_csumMultiRequest token operation uid keyId h hword
  | csumMultiReply token operation error records =>
    exact planned_csumMultiReply token operation error h hword

def HasZero : Draft → Prop
  | stringList _ _ strings => ∃ s ∈ strings, 0 ∈ s
  | _ => False

def HasLargeRecord : Draft → Prop
  | csumMultiRequest _ _ _ _ records => ∃ r ∈ records, 2 ^ 32 ≤ r.size
  | csumMultiReply _ _ _ records => ∃ r ∈ records, 2 ^ 32 ≤ r.size
  | _ => False

theorem encodable_iff : d.Encodable ↔ ¬d.HasZero ∧ ¬d.HasLargeRecord := by
  cases d <;> simp [Encodable, HasZero, HasLargeRecord, UInt32.size]

theorem fails_of_hasZero (h : d.HasZero) :
    d.plan = .error (.unterminated .stringList "strings") ∧
      d.write = .error (.unterminated .stringList "strings") := by
  cases d with
  | stringList token flags strings =>
    obtain ⟨s, hs, hzero⟩ := h
    have hstrings : ¬∀ s ∈ strings, 0 ∉ s := fun hnone => hnone s hs hzero
    rw [plan, write, Message.stringList, require_eq_error.mpr ⟨hstrings, rfl⟩]
    exact ⟨rfl, rfl⟩
  | _ => cases h

theorem write_of_hasLargeRecord (h : d.HasLargeRecord) :
    d.write = .error (.regionTooLarge "record") := by
  cases d with
  | csumMultiRequest token operation uid keyId records =>
    obtain ⟨r, hr, hlarge⟩ := h
    rw [write, Message.csumMultiRequest,
      mapM_eq_error requestRecord_or_error hr (requestRecord_of_large hlarge)]
    rfl
  | csumMultiReply token operation error records =>
    obtain ⟨r, hr, hlarge⟩ := h
    rw [write, Message.csumMultiReply,
      mapM_eq_error replyRecord_or_error hr (replyRecord_of_large hlarge)]
    rfl
  | _ => cases h

theorem plan_of_hasLargeRecord (h : d.HasLargeRecord) (hword : d.bodySize < UInt64.size) :
    d.plan = .error (.regionTooLarge "record") := by
  cases d with
  | csumMultiRequest token operation uid keyId records =>
    obtain ⟨r, hr, hlarge⟩ := h
    rw [plan, mapM_placeRequestRecord token hword,
      mapM_eq_error requestRecord_or_error hr (requestRecord_of_large hlarge)]
    rfl
  | csumMultiReply token operation error records =>
    obtain ⟨r, hr, hlarge⟩ := h
    rw [plan, mapM_placeReplyRecord token hword,
      mapM_eq_error replyRecord_or_error hr (replyRecord_of_large hlarge)]
    rfl
  | _ => cases h

theorem planned_or_error (hword : d.bodySize < UInt64.size) :
    (∃ p fields, Planned d p fields) ∨
      ∃ fault, d.plan = .error fault ∧ d.write = .error fault := by
  by_cases hzero : d.HasZero
  · exact .inr ⟨_, fails_of_hasZero hzero⟩
  · by_cases hrecord : d.HasLargeRecord
    · exact .inr ⟨_, plan_of_hasLargeRecord hrecord hword, write_of_hasLargeRecord hrecord⟩
    · exact .inl (exists_planned (encodable_iff.mpr ⟨hzero, hrecord⟩) hword)

theorem planned_of_plan (hword : d.bodySize < UInt64.size) (h : d.plan = .ok p) :
    ∃ fields, Planned d p fields := by
  rcases planned_or_error hword with ⟨p', fields, hp⟩ | ⟨fault, hplan, -⟩
  · obtain rfl : p' = p := Except.ok.inj (hp.plan.symm.trans h)
    exact ⟨fields, hp⟩
  · rw [hplan] at h
    cases h

theorem place_eq_write (hword : d.bodySize < UInt64.size) : d.place = d.write := by
  rcases planned_or_error hword with ⟨p, fields, hp⟩ | ⟨fault, hplan, hwrite⟩
  · rw [place, hp.plan, ok_bind, hp.write]
    exact hp.spells.place_eq_compose (hp.sizes ▸ hword)
  · rw [place, hplan, hwrite]
    rfl

inductive Result (d : Draft) : Except Fault Message → Prop where
  | unterminated (h : d.HasZero) : Result d (.error (.unterminated .stringList "strings"))
  | largeRecord (h : d.HasLargeRecord) : Result d (.error (.regionTooLarge "record"))
  | tooLarge (h : d.Encodable) (hlarge : maxSize < d.bodySize + trailerSize) :
      Result d (.error (.tooLarge d.bodySize))
  | ok {m} (h : d.Encodable) (hfits : d.bodySize + trailerSize ≤ maxSize)
      (hsize : m.size = d.bodySize + trailerSize) : Result d (.ok m)

theorem result_write (d : Draft) : d.Result d.write := by
  by_cases hzero : d.HasZero
  · rw [(fails_of_hasZero hzero).2]
    exact .unterminated hzero
  · by_cases hrecord : d.HasLargeRecord
    · rw [write_of_hasLargeRecord hrecord]
      exact .largeRecord hrecord
    · have h := encodable_iff.mpr ⟨hzero, hrecord⟩
      rcases Nat.lt_or_ge maxSize (d.bodySize + trailerSize) with hlarge | hfits
      · rw [write_eq_error h hlarge]
        exact .tooLarge h hlarge
      · obtain ⟨m, hm, hsize⟩ := exists_write h hfits
        rw [hm]
        exact .ok h hfits hsize

/-- Exactly the drafts that fit are written, and the others fail for what does not fit. -/
structure FitsOrFails (d : Draft) : Prop where
  placed : d.place = d.write
  sizes {p : Plan} : d.plan = .ok p → total p.sizes = .ok d.bodySize
  parts {p : Plan} {m : Message} : d.plan = .ok p →
    withOpcode p.opcode.code d.bodySize = .ok m → ∃ m', p.parts.foldlM writePart m = .ok m'
  unterminated : d.write = .error (.unterminated .stringList "strings") ↔ d.HasZero
  largeRecord : d.write = .error (.regionTooLarge "record") ↔ d.HasLargeRecord
  tooLarge : d.write = .error (.tooLarge d.bodySize) ↔
    (¬d.HasZero ∧ ¬d.HasLargeRecord) ∧ 100000 < d.bodySize + 4
  ok : (∃ m, d.write = .ok m) ↔ (¬d.HasZero ∧ ¬d.HasLargeRecord) ∧ d.bodySize + 4 ≤ 100000
  size {m : Message} : d.write = .ok m → m.size = d.bodySize + 4
  other {fault : Fault} : d.write = .error fault →
    fault = .unterminated .stringList "strings" ∨ fault = .regionTooLarge "record" ∨
      fault = .tooLarge d.bodySize

theorem fitsOrFails (d : Draft) (hword : d.bodySize < 2 ^ 64) : d.FitsOrFails where
  placed := place_eq_write hword
  sizes hplan := by
    obtain ⟨fields, hp⟩ := planned_of_plan hword hplan
    rw [total_eq (hp.sizes ▸ hword), hp.sizes]
  parts hplan hm := by
    obtain ⟨fields, hp⟩ := planned_of_plan hword hplan
    rw [← length_of_write_eq hp.encodable hp.write] at hm
    obtain ⟨m', hwrites, -⟩ := hp.spells.writes hm
    exact ⟨m', hwrites⟩
  unterminated := by
    constructor
    · intro h
      cases h ▸ d.result_write with
      | unterminated hzero => exact hzero
    · intro hzero
      exact (fails_of_hasZero hzero).2
  largeRecord := by
    constructor
    · intro h
      cases h ▸ d.result_write with
      | largeRecord hrecord => exact hrecord
    · exact write_of_hasLargeRecord
  tooLarge := by
    constructor
    · intro h
      cases h ▸ d.result_write with
      | tooLarge hencodable hlarge => exact ⟨encodable_iff.mp hencodable, hlarge⟩
    · rintro ⟨hencodable, hlarge⟩
      exact write_eq_error (encodable_iff.mpr hencodable) hlarge
  ok := by
    constructor
    · rintro ⟨m, h⟩
      cases h ▸ d.result_write with
      | ok hencodable hfits => exact ⟨encodable_iff.mp hencodable, hfits⟩
    · rintro ⟨hencodable, hfits⟩
      obtain ⟨m, hm, -⟩ := exists_write (encodable_iff.mpr hencodable) hfits
      exact ⟨m, hm⟩
  size h := by
    cases h ▸ d.result_write with
    | ok _ _ hsize => exact hsize
  other h := by
    cases h ▸ d.result_write with
    | unterminated => exact .inl rfl
    | largeRecord => exact .inr (.inl rfl)
    | tooLarge => exact .inr (.inr rfl)

theorem bodySize_path (n : Nat) :
    (csumRequest 1 2 3 [] (List.replicate n 47)).bodySize = 33 + n := by
  simp only [bodySize, Layout.CsumRequest.payload, List.length_nil, List.length_replicate]
  omega

/-- A path that leaves no byte over is written, and with one byte more it is not. -/
theorem fitsOrFails_longest_path :
    (csumRequest 1 2 3 [] (List.replicate 99963 47)).bodySize < 2 ^ 64 ∧
      (∃ m, (csumRequest 1 2 3 [] (List.replicate 99963 47)).write = .ok m ∧ m.size = 100000) ∧
      (csumRequest 1 2 3 [] (List.replicate 99964 47)).write = .error (.tooLarge 99997) := by
  have hword (n : Nat) (hn : n < 100000) :
      (csumRequest 1 2 3 [] (List.replicate n 47)).bodySize < 2 ^ 64 := by
    rw [bodySize_path]
    omega
  have hfits := fitsOrFails (csumRequest 1 2 3 [] (List.replicate 99963 47)) (hword _ (by decide))
  have hfails := fitsOrFails (csumRequest 1 2 3 [] (List.replicate 99964 47)) (hword _ (by decide))
  obtain ⟨m, hm⟩ := hfits.ok.mpr ⟨⟨id, id⟩, by rw [bodySize_path]⟩
  have hlarge := hfails.tooLarge.mpr ⟨⟨id, id⟩, by rw [bodySize_path]; decide⟩
  rw [bodySize_path] at hlarge
  exact ⟨hword _ (by decide), ⟨m, hm, by rw [hfits.size hm, bodySize_path]⟩, hlarge⟩

end Draft

end Arbiter
