import Mathlib.Data.List.Induction
import Mathlib.Data.List.InsertIdx
import Mathlib.Data.List.Nodup
import Arbiter.Proofs.Client.Rejections
import Arbiter.Proofs.Client.Tokens

/-!
What a client keeps of its requests and what it tells of them. A request is pending under its token
for as long as a transaction waits for the reply to it. Whatever replies come, late, twice or to
nothing, a request is concluded at most once, and by a reply that came after it was made.
-/

namespace Arbiter

def Message.request? (m : Message) : Option (UInt64 × Request) :=
  match m.decode with
  | .ok (.versel token version) => some (token, .versel version)
  | .ok (.register r) => some (r.token, .register r.filter)
  | .ok (.unregister r) => some (r.token, .unregister r.filter)
  | .ok (.close token) => some (token, .close)
  | _ => none

section Message

variable {m : Message} {what : Request} {token : UInt64}

theorem Message.request?_ne_hello (h : m.request? = some (token, what)) : what ≠ .hello := by
  rintro rfl
  unfold request? at h
  split at h <;> cases h

theorem Message.request?_of_answer {verdict : Verdict} {delegate : Bool}
    (h : Message.answer token verdict delegate = .ok m) : m.request? = none := by
  rw [request?, decode_answer h]

theorem Message.versel_of_opcode {content : Content} (hm : m.decode = .ok content)
    (hop : m.opcode? = some Opcode.versel.code) : content.opcode = .versel :=
  Opcode.code_inj.mp (Option.some.inj ((opcode?_of_decode hm).symm.trans hop))

theorem Request.Written.request? (h : what.Written token m) : m.request? = some (token, what) := by
  cases h with
  | versel h => rw [Message.request?, Message.decode_versel h]
  | register h => rw [Message.request?, Message.decode_register h]
  | unregister h => rw [Message.request?, Message.decode_unregister h]
  | close h => rw [Message.request?, Message.decode_close h]

theorem Request.Written.versel_of_opcode (h : what.Written token m)
    (hop : m.opcode? = some Opcode.versel.code) : ∃ version, what = .versel version := by
  cases h with
  | @versel version _ _ h => exact ⟨version, rfl⟩
  | register h => cases Message.versel_of_opcode (Message.decode_register h) hop
  | unregister h => cases Message.versel_of_opcode (Message.decode_unregister h) hop
  | close h => cases Message.versel_of_opcode (Message.decode_close h) hop

end Message

def ClientCall.reply? : ClientCall → Option (UInt64 × Int32)
  | .command _ => none
  | .receive m =>
    match m.check with
    | .error _ => none
    | .ok _ => m.acknowledged?

structure ClientStep where
  call : ClientCall
  reaction : Reaction
  issued : List UInt64

namespace ClientStep

def of (c : Client) (call : ClientCall) (result : Except ClientError Reaction × Client) :
    ClientStep :=
  ⟨call, result.1.toOption.getD .none, c.issued result.2⟩

def concluding (s : ClientStep) : List Notice := s.reaction.notices.filter Notice.isConclusion

def concluded (s : ClientStep) : List UInt64 :=
  match s.call.reply? with
  | none => []
  | some (token, _) => s.concluding.map fun _ => token

variable {s : ClientStep}

theorem concluded_of_reply {token : UInt64} {error : Int32}
    (h : s.call.reply? = some (token, error)) :
    s.concluded = List.replicate s.concluding.length token := by
  rw [concluded, h, ← List.map_const']

theorem concluded_of_none (h : s.concluding = []) : s.concluded = [] := by
  rw [concluded, h]
  split <;> rfl

end ClientStep

section Steps

variable (steps : List ClientStep)

def sentIn : List Message := steps.flatMap fun s => s.reaction.send

def requestsIn : List (UInt64 × Request) := (sentIn steps).filterMap Message.request?

def issuedIn : List UInt64 := steps.flatMap ClientStep.issued

def concludedIn : List UInt64 := steps.flatMap ClientStep.concluded

end Steps

def selections (sent : List Message) : List Message :=
  sent.filter (·.opcode? = some Opcode.versel.code)

theorem selections_snoc {m : Message} (hop : m.opcode? ≠ some Opcode.versel.code)
    (sent : List Message) : selections (sent ++ [m]) = selections sent := by
  rw [selections, List.filter_append, List.filter_singleton, decide_eq_false hop]
  exact List.append_nil _

namespace Client

open Transaction

variable {c : Client} {call : ClientCall} {m : Message} {token : UInt64} {error : Int32}
  {what : Request}

def step (c : Client) (call : ClientCall) : ClientStep := .of c call (c.perform call)

def history (c : Client) : List ClientCall → List ClientStep
  | [] => []
  | call :: calls => c.step call :: (c.perform call).2.history calls

def tokens (c : Client) : List UInt64 := c.transactions.items.map Transaction.token

theorem tokens_asked (c : Client) (what : Request) :
    (c.asked what).tokens = c.tokens ++ [c.nextToken] :=
  List.map_append

theorem history_append (c : Client) (calls calls' : List ClientCall) :
    c.history (calls ++ calls') = c.history calls ++ (c.run calls).history calls' := by
  induction calls generalizing c with
  | nil => rfl
  | cons call calls ih => exact congrArg (_ :: ·) (ih _)

theorem length_issuedIn_le (c : Client) (calls : List ClientCall) :
    (issuedIn (c.history calls)).length ≤ calls.length := by
  induction calls generalizing c with
  | nil => exact Nat.le_refl 0
  | cons call calls ih =>
    have hissued : (c.step call).issued.length ≤ 1 := by
      unfold step ClientStep.of issued
      split <;> simp
    rw [history, issuedIn, List.flatMap_cons, List.length_append, List.length_cons, Nat.add_comm]
    exact Nat.add_le_add (ih _) hissued

theorem run_snoc (c : Client) (calls : List ClientCall) (call : ClientCall) :
    c.run (calls ++ [call]) = ((c.run calls).perform call).2 :=
  List.foldl_append

theorem reply?_eq_some (h : call.reply? = some (token, error)) :
    ∃ m opcode, call = .receive m ∧ m.check = .ok () ∧
      m.decode = .ok (.reply token opcode error) := by
  cases call with
  | command => cases h
  | receive m =>
    rw [ClientCall.reply?] at h
    cases hcheck : m.check with
    | error fault =>
      rw [hcheck] at h
      cases h
    | ok =>
      rw [hcheck] at h
      simp only [Message.acknowledged?] at h
      split at h
      · rename_i hm
        cases h
        exact ⟨m, _, rfl, hcheck, hm⟩
      · cases h

theorem reply?_receive {opcode : UInt32} (hcheck : m.check = .ok ())
    (hm : m.decode = .ok (.reply token opcode error)) :
    (ClientCall.receive m).reply? = some (token, error) := by
  rw [ClientCall.reply?, hcheck, Message.acknowledged?, hm]

theorem reply?_of_hello (hop : m.opcode? = some Opcode.hello.code) :
    (ClientCall.receive m).reply? = none := by
  cases hreply : (ClientCall.receive m).reply? with
  | none => rfl
  | some reply =>
    obtain ⟨_, opcode, hcall, -, hm⟩ := reply?_eq_some hreply
    cases hcall
    have hop' := (Message.opcode?_of_decode hm).symm.trans hop
    cases Opcode.code_inj.mp (Option.some.inj hop')

theorem filter_conclusion_eq (c : Client) (token : UInt64) (error : Int32) :
    (c.conclusion token error).filter Notice.isConclusion = c.conclusion token error := by
  refine List.filter_eq_self.mpr fun n hn => ?_
  cases hpending : c.pending.get? token with
  | none =>
    rw [conclusion_of_idle error hpending] at hn
    cases hn
  | some what =>
    rw [conclusion_of_pending error hpending] at hn
    exact Request.conclusion_isConclusion hn

theorem concluding_unsolicited (c : Client) (call : ClientCall) (m : Message) :
    (ClientStep.of c call (unsolicited m, c)).concluding = [] := by
  refine List.filter_eq_nil_iff.mpr fun n hn => ?_
  cases hreaction : unsolicited m with
  | error e =>
    simp only [ClientStep.of, hreaction] at hn
    cases hn
  | ok reaction =>
    simp only [ClientStep.of, hreaction] at hn
    exact (unsolicited_eq_ok hreaction).2 n hn

theorem send_unsolicited (c : Client) (call : ClientCall) (m : Message) :
    (ClientStep.of c call (unsolicited m, c)).reaction.send = [] := by
  cases hreaction : unsolicited m with
  | error e => rfl
  | ok reaction => exact (unsolicited_eq_ok hreaction).1

theorem of_settled (c : Client) (call : ClientCall) (reaction : Reaction) (i : Nat) (token : UInt64)
    (version : Option UInt32) :
    ClientStep.of c call (.ok reaction, c.settled i token version) = ⟨call, reaction, []⟩ := by
  rw [ClientStep.of, issued_settled]
  rfl

theorem concluding_writing (c : Client) (call : ClientCall)
    (result : Except ClientError Message × Client) :
    (ClientStep.of c call (writing result)).concluding = [] := by
  obtain ⟨message | error, c'⟩ := result <;> rfl

namespace Poised

theorem concluding_of_reply (hc : c.Poised) (h : call.reply? = some (token, error)) :
    (c.step call).concluding = c.conclusion token error := by
  obtain ⟨m, opcode, rfl, hcheck, hm⟩ := reply?_eq_some h
  rcases hc.receive_reply hcheck hm with ⟨hnot, hreceive⟩ | ⟨-, i, version, -, hreceive⟩
  · rw [step, perform, hreceive, concluding_unsolicited]
    cases hpending : c.pending.get? token with
    | none => exact (conclusion_of_idle error hpending).symm
    | some what =>
      rw [conclusion_of_pending error hpending]
      -- Only the greeting is pending and yet waits for no reply.
      by_cases hhello : what = .hello
      · rw [hhello]
        rfl
      · exact absurd (hc.regular.awaits_iff.mpr (hc.awaited hpending hhello)) hnot
  · rw [step, perform, hreceive]
    exact c.filter_conclusion_eq token error

theorem concluding_of_no_reply (hc : c.Poised) (h : call.reply? = none) :
    (c.step call).concluding = [] := by
  cases call with
  | command command => cases command <;> exact concluding_writing ..
  | receive m =>
    cases hcheck : m.check with
    | error fault =>
      rw [step, perform, receive_of_malformed hcheck]
      rfl
    | ok =>
      have hreceived := hc.received hcheck
      rw [step, perform]
      generalize c.receive m = result at hreceived ⊢
      cases hreceived with
      | unsolicited => exact concluding_unsolicited ..
      | ignored => rfl
      | greeted => exact concluding_writing ..
      | replied version hi hm =>
        rw [reply?_receive hcheck hm] at h
        cases h

end Poised

/-- What holds of a client that sent these messages, gave these tokens away and concluded the
requests of these. -/
structure Tally (c : Client) (sent : List Message) (issued concluded : List UInt64) : Prop where
  poised : c.Poised
  numbered : ∃ start, Numbered start issued c.nextToken
  tokens : c.tokens = c.pending.keys
  nonzero : forReply 0 ∉ c.transactions.items
  requests : (sent.filterMap Message.request?).map Prod.fst = issued
  pending {token : UInt64} {what : Request} (h : token ≠ 0) : c.pending.get? token = some what ↔
    (token, what) ∈ sent.filterMap Message.request? ∧ token ∉ concluded
  once : concluded.Nodup
  concluded {token : UInt64} : token ∈ concluded → token ∈ issued
  selected : selections sent = [] ∨ (selections sent).length = 1 ∧ 0 ∉ c.tokens

namespace Tally

variable {sent : List Message} {issued concluded : List UInt64}

theorem distinct (h : Tally c sent issued concluded) : c.tokens.Nodup :=
  h.tokens ▸ c.pending.nodup

theorem issued_of_pending (h : Tally c sent issued concluded) (hzero : token ≠ 0)
    (hpending : c.pending.get? token = some what) : token ∈ issued := by
  rw [← h.requests]
  exact List.mem_map_of_mem ((h.pending hzero).mp hpending).1

theorem tokens_settled (h : Tally c sent issued concluded) {i : Nat} {t : Transaction Unit Empty}
    (hi : c.transactions.items[i]? = some t) (version : Option UInt32) :
    (c.settled i t.token version).tokens = c.tokens.filter (· ≠ t.token) := by
  obtain ⟨hlt, rfl⟩ := List.getElem?_eq_some_iff.mp hi
  have hlt' : i < c.tokens.length := by rwa [Client.tokens, List.length_map]
  have htoken : c.tokens[i] = c.transactions.items[i].token := List.getElem_map ..
  rw [← htoken]
  calc (c.settled i c.tokens[i] version).tokens
    _ = c.tokens.eraseIdx i := (List.eraseIdx_map ..).symm
    _ = c.tokens.erase c.tokens[i] := (h.distinct.erase_getElem i hlt').symm
    _ = c.tokens.filter (· ≠ c.tokens[i]) := by
      rw [h.distinct.erase_eq_filter]
      exact List.filter_congr fun token _ => Bool.eq_iff_iff.mpr (by simp)

theorem noted (h : Tally c sent issued concluded) (hm : m.request? = none)
    (hop : m.opcode? ≠ some Opcode.versel.code) : Tally c (sent ++ [m]) issued concluded := by
  have hrequests : (sent ++ [m]).filterMap Message.request? = sent.filterMap Message.request? := by
    rw [List.filterMap_append, List.filterMap_cons_none hm, List.filterMap_nil, List.append_nil]
  exact { h with
    requests := hrequests ▸ h.requests
    pending := hrequests ▸ h.pending
    selected := selections_snoc hop sent ▸ h.selected }

theorem unasked (h : Tally c sent issued concluded) (hfresh : c.nextToken ∉ issued) :
    c.pending.get? c.nextToken = none :=
  Option.eq_none_iff_forall_ne_some.mpr fun _ hpending =>
    hfresh (h.issued_of_pending h.poised.nonzero hpending)

theorem pending_asked (h : Tally c sent issued concluded) (hfresh : c.nextToken ∉ issued)
    (hzero : token ≠ 0) (what what' : Request) :
    (c.asked what).pending.get? token = some what' ↔
      (token, what') ∈ sent.filterMap Message.request? ++ [(c.nextToken, what)] ∧
        token ∉ concluded := by
  rw [List.mem_append, List.mem_singleton, Client.asked, Table.get?_insert]
  split
  · rename_i htoken
    subst htoken
    have hnot : (c.nextToken, what') ∉ sent.filterMap Message.request? := fun hmem =>
      hfresh (h.requests ▸ List.mem_map_of_mem hmem)
    constructor
    · intro hwhat
      obtain rfl := Option.some.inj hwhat
      exact ⟨.inr rfl, fun hmem => hfresh (h.concluded hmem)⟩
    · rintro ⟨hmem | hwhat, -⟩
      · exact absurd hmem hnot
      · exact congrArg some (congrArg Prod.snd hwhat).symm
  · rename_i htoken
    rw [h.pending hzero]
    simp [htoken]

theorem selected_asked (h : Tally c sent issued concluded) (hm : what.Written c.nextToken m)
    (hversel : ∀ version, what = .versel version → selections sent = [] ∧ 0 ∉ c.tokens) :
    selections (sent ++ [m]) = [] ∨
      (selections (sent ++ [m])).length = 1 ∧ 0 ∉ (c.asked what).tokens := by
  have hgreeting (hzero : 0 ∉ c.tokens) : 0 ∉ (c.asked what).tokens := by
    rw [tokens_asked, List.mem_append, List.mem_singleton]
    exact not_or_intro hzero h.poised.nonzero.symm
  by_cases hop : m.opcode? = some Opcode.versel.code
  · obtain ⟨version, hwhat⟩ := hm.versel_of_opcode hop
    obtain ⟨hnone, hzero⟩ := hversel version hwhat
    refine .inr ⟨?_, hgreeting hzero⟩
    rw [selections, List.filter_append, ← selections, hnone, List.filter_singleton,
      decide_eq_true hop]
    rfl
  · rw [selections_snoc hop]
    exact h.selected.imp_right fun hselected => ⟨hselected.1, hgreeting hselected.2⟩

theorem asked (h : Tally c sent issued concluded) (hm : what.Written c.nextToken m)
    (hfresh : c.nextToken ∉ issued)
    (hversel : ∀ version, what = .versel version → selections sent = [] ∧ 0 ∉ c.tokens) :
    Tally (c.asked what) (sent ++ [m]) (issued ++ [c.nextToken]) concluded := by
  have hrequests : (sent ++ [m]).filterMap Message.request? =
      sent.filterMap Message.request? ++ [(c.nextToken, what)] := by
    rw [List.filterMap_append, List.filterMap_cons_some hm.request?, List.filterMap_nil]
  constructor
  · exact h.poised.asked what
  · obtain ⟨start, hstart⟩ := h.numbered
    exact ⟨start, hstart.advance h.poised.nonzero⟩
  · rw [tokens_asked, h.tokens, Table.keys, Table.keys, Client.asked,
      Table.entries_insert _ _ _ (h.unasked hfresh), List.map_append]
    rfl
  · intro hzero
    rcases List.mem_append.mp hzero with hzero | hzero
    · exact h.nonzero hzero
    · exact h.poised.nonzero (congrArg Transaction.token (List.mem_singleton.mp hzero)).symm
  · rw [hrequests, List.map_append, h.requests]
    rfl
  · rw [hrequests]
    exact fun hzero => h.pending_asked hfresh hzero what _
  · exact h.once
  · exact fun htoken => List.mem_append_left _ (h.concluded htoken)
  · exact h.selected_asked hm hversel

theorem settled (h : Tally c sent issued concluded) {i : Nat} {t : Transaction Unit Empty}
    (hi : c.transactions.items[i]? = some t) (version : Option UInt32) {concluded' : List UInt64}
    (hconcluded : ∀ token ≠ 0, token ∈ concluded' ↔ token ∈ concluded ∨ token = t.token)
    (honce : concluded'.Nodup) (hissued : ∀ token ∈ concluded', token ∈ issued) :
    Tally (c.settled i t.token version) sent issued concluded' := by
  have htokens := h.tokens_settled hi version
  constructor
  · refine h.poised.settled version hi fun token hne ht => hne ?_
    rw [ht]
    rfl
  · exact h.numbered
  · rw [htokens, h.tokens, Table.keys, Table.keys, Client.settled, Table.erase, List.filter_map]
    rfl
  · exact fun hzero => h.nonzero (List.mem_of_mem_eraseIdx hzero)
  · exact h.requests
  · intro token what hzero
    rw [Client.settled, Table.get?_erase, hconcluded token hzero]
    split
    · rename_i htoken
      simp [htoken]
    · rename_i htoken
      rw [h.pending hzero]
      simp [htoken]
  · exact honce
  · exact hissued _
  · refine h.selected.imp_right fun hselected => ⟨hselected.1, fun hzero => hselected.2 ?_⟩
    rw [htokens] at hzero
    exact List.mem_of_mem_filter hzero

theorem greeted (h : Tally c sent issued concluded) {i : Nat}
    (hi : c.transactions.items[i]? = some forGreeting) :
    Tally (c.settled i 0 c.version) sent issued concluded ∧
      selections sent = [] ∧ 0 ∉ (c.settled i 0 c.version).tokens := by
  refine ⟨h.settled hi c.version ?_ h.once fun _ => h.concluded, ?_, ?_⟩
  · exact fun token hzero => ⟨.inl, fun htoken => htoken.resolve_right hzero⟩
  · exact h.selected.resolve_right fun hselected =>
      hselected.2 (List.mem_map_of_mem (List.mem_of_getElem? hi))
  · intro hzero
    have htokens := h.tokens_settled hi c.version
    rw [show forGreeting.token = 0 from rfl] at htokens
    rw [htokens] at hzero
    simpa using List.of_mem_filter hzero

theorem exists_pending (h : Tally c sent issued concluded)
    (ht : forReply token ∈ c.transactions.items) :
    token ≠ 0 ∧ ∃ what, c.pending.get? token = some what := by
  refine ⟨fun hzero => h.nonzero (hzero ▸ ht), Option.ne_none_iff_exists'.mp fun hnone => ?_⟩
  have hmem : token ∈ c.tokens := List.mem_map_of_mem ht
  exact Table.get?_eq_none.mp hnone (h.tokens ▸ hmem)

theorem replied (h : Tally c sent issued concluded) {i : Nat}
    (hi : c.transactions.items[i]? = some (forReply token)) (version : Option UInt32) :
    Tally (c.settled i token version) sent issued (concluded ++ [token]) := by
  obtain ⟨hzero, what, hpending⟩ := h.exists_pending (List.mem_of_getElem? hi)
  have hopen : token ∉ concluded := ((h.pending hzero).mp hpending).2
  refine h.settled hi version (fun token' _ => ?_) ?_ fun token' htoken => ?_
  · rw [List.mem_append, List.mem_singleton]
    rfl
  · exact (List.perm_append_singleton token concluded).nodup_iff.mpr
      (List.nodup_cons.mpr ⟨hopen, h.once⟩)
  · rcases List.mem_append.mp htoken with htoken | htoken
    · exact h.concluded htoken
    · exact List.mem_singleton.mp htoken ▸ h.issued_of_pending hzero hpending

theorem asks (h : Tally c sent issued concluded) {result : Except ClientError Message × Client}
    (ha : Asks c what result) (call : ClientCall)
    (hversel : ∀ version, what = .versel version → selections sent = [] ∧ 0 ∉ c.tokens)
    (hissued : (issued ++ c.issued result.2).length < UInt64.size) :
    Tally result.2 (sent ++ (ClientStep.of c call (writing result)).reaction.send)
      (issued ++ c.issued result.2) concluded := by
  cases ha with
  | refused =>
    rw [issued_self, List.append_nil]
    exact (List.append_nil sent).symm ▸ h
  | sent hm =>
    rw [issued_asked] at hissued ⊢
    obtain ⟨start, hstart⟩ := h.numbered
    exact h.asked hm (hstart.unused hissued) hversel

theorem command (h : Tally c sent issued concluded) (command : ClientCommand) {call : ClientCall}
    (hissued : (issued ++ c.issued (c.command command).2).length < UInt64.size) :
    Tally (c.command command).2
      (sent ++ (ClientStep.of c call (c.command command)).reaction.send)
      (issued ++ c.issued (c.command command).2) concluded := by
  cases command with
  | register f => exact h.asks (c.register_asks f) call (fun _ => Request.noConfusion) hissued
  | unregister f => exact h.asks (c.unregister_asks f) call (fun _ => Request.noConfusion) hissued
  | close => exact h.asks c.close_asks call (fun _ => Request.noConfusion) hissued
  | answer token verdict delegate =>
    rw [Client.command, writing, issued_self, List.append_nil]
    cases hanswer : c.answer token verdict delegate with
    | error e => exact (List.append_nil sent).symm ▸ h
    | ok m =>
      have hm := Message.decode_answer (answer_eq_ok hanswer)
      refine h.noted (Message.request?_of_answer (answer_eq_ok hanswer)) fun hop => ?_
      cases Message.versel_of_opcode hm hop

theorem concluded_of_replied (h : Tally c sent issued concluded)
    (ht : forReply token ∈ c.transactions.items) (hreply : call.reply? = some (token, error)) :
    (c.step call).concluded = [token] := by
  obtain ⟨hzero, what, hpending⟩ := h.exists_pending ht
  obtain ⟨m, -, hm⟩ := List.mem_filterMap.mp ((h.pending hzero).mp hpending).1
  rw [ClientStep.concluded_of_reply hreply, h.poised.concluding_of_reply hreply,
    conclusion_of_pending error hpending, what.length_conclusion (Message.request?_ne_hello hm)]
  rfl

theorem idle (h : Tally c sent issued concluded) {s : ClientStep} (hsend : s.reaction.send = [])
    (hissued : s.issued = []) (hconcluding : s.concluding = []) :
    Tally c (sent ++ s.reaction.send) (issued ++ s.issued) (concluded ++ s.concluded) := by
  rw [hsend, hissued, ClientStep.concluded_of_none hconcluding]
  simpa only [List.append_nil] using h

theorem received (h : Tally c sent issued concluded) (hcheck : m.check = .ok ())
    (hissued : (issued ++ (c.step (.receive m)).issued).length < UInt64.size) :
    Tally (c.receive m).2 (sent ++ (c.step (.receive m)).reaction.send)
      (issued ++ (c.step (.receive m)).issued) (concluded ++ (c.step (.receive m)).concluded) := by
  obtain ⟨result, hresult, hreceived⟩ : ∃ result, c.receive m = result ∧ Received c m result :=
    ⟨_, rfl, h.poised.received hcheck⟩
  have hstep : c.step (.receive m) = .of c (.receive m) result := by
    rw [Client.step, perform, hresult]
  have hunconcluded (hop : m.opcode? = some Opcode.hello.code) :
      (c.step (.receive m)).concluded = [] :=
    ClientStep.concluded_of_none (h.poised.concluding_of_no_reply (reply?_of_hello hop))
  rw [hresult]
  cases hreceived with
  | unsolicited =>
    rw [hstep]
    exact h.idle (send_unsolicited c _ m) c.issued_self (concluding_unsolicited c _ m)
  | ignored hop hi =>
    rw [hunconcluded hop, hstep, of_settled]
    simpa only [Reaction.none, List.append_nil] using (h.greeted hi).1
  | greeted hop hi ha =>
    obtain ⟨hsettled, hselectable⟩ := h.greeted hi
    rw [hunconcluded hop, List.append_nil, hstep]
    rw [hstep] at hissued
    exact hsettled.asks ha (.receive m) (fun _ _ => hselectable) hissued
  | replied version hi hm =>
    rw [h.concluded_of_replied (List.mem_of_getElem? hi) (reply?_receive hcheck hm), hstep,
      of_settled]
    simpa only [List.append_nil] using h.replied hi version

theorem step (h : Tally c sent issued concluded) (call : ClientCall)
    (hissued : (issued ++ (c.step call).issued).length < UInt64.size) :
    Tally (c.perform call).2 (sent ++ (c.step call).reaction.send)
      (issued ++ (c.step call).issued) (concluded ++ (c.step call).concluded) := by
  cases call with
  | command command =>
    rw [ClientStep.concluded_of_none (h.poised.concluding_of_no_reply rfl), List.append_nil]
    exact h.command command hissued
  | receive m =>
    cases hcheck : m.check with
    | error fault =>
      have hstep : c.step (.receive m) = .of c (.receive m) (.error (.malformed fault), c) := by
        rw [Client.step, perform, receive_of_malformed hcheck]
      rw [perform, receive_of_malformed hcheck, hstep]
      exact h.idle rfl c.issued_self rfl
    | ok => exact h.received hcheck hissued

theorem told (h : Tally c sent issued concluded) {n : Notice}
    (hn : n ∈ (c.step call).concluding) : ∃ token error what,
      call.reply? = some (token, error) ∧
      (token, what) ∈ sent.filterMap Message.request? ∧ n ∈ what.conclusion token error := by
  cases hreply : call.reply? with
  | none =>
    rw [h.poised.concluding_of_no_reply hreply] at hn
    cases hn
  | some reply =>
    obtain ⟨token, error⟩ := reply
    rw [h.poised.concluding_of_reply hreply] at hn
    cases hpending : c.pending.get? token with
    | none =>
      rw [conclusion_of_idle error hpending] at hn
      cases hn
    | some what =>
      rw [conclusion_of_pending error hpending] at hn
      have hzero : token ≠ 0 := by
        rintro rfl
        rw [h.poised.greeting hpending] at hn
        cases hn
      exact ⟨token, error, what, rfl, ((h.pending hzero).mp hpending).1, hn⟩

theorem answered (h : Tally c sent issued concluded) (hreply : call.reply? = some (token, error))
    (hrequest : (token, what) ∈ sent.filterMap Message.request?) (hopen : token ∉ concluded) :
    (c.step call).concluding = what.conclusion token error := by
  have hzero : token ≠ 0 := by
    obtain ⟨start, hstart⟩ := h.numbered
    rintro rfl
    exact hstart.nonzero (h.requests ▸ List.mem_map_of_mem hrequest)
  rw [h.poised.concluding_of_reply hreply]
  exact conclusion_of_pending error ((h.pending hzero).mpr ⟨hrequest, hopen⟩)

end Tally

theorem tally_fresh (seed : UInt32) : Tally (fresh seed) [] [] [] where
  poised := poised_fresh seed
  numbered := ⟨_, Numbered.start_at (fresh_nextToken seed)⟩
  tokens := rfl
  nonzero h := forGreeting_ne_forReply 0 (List.mem_singleton.mp h).symm
  requests := rfl
  pending {token what} hzero := by
    have hinsert : (fresh seed).pending = Table.empty.insert 0 .hello := rfl
    rw [hinsert, Table.get?_insert, if_neg hzero]
    simp
  once := List.nodup_nil
  concluded h := nomatch h
  selected := .inl rfl

theorem tally_run (seed : UInt32) (calls : List ClientCall)
    (hissued : (issuedIn ((fresh seed).history calls)).length < UInt64.size) :
    Tally ((fresh seed).run calls) (sentIn ((fresh seed).history calls))
      (issuedIn ((fresh seed).history calls)) (concludedIn ((fresh seed).history calls)) := by
  induction calls using List.reverseRecOn with
  | nil => exact tally_fresh seed
  | append_singleton calls call ih =>
    simp only [run_snoc, history_append, history, sentIn, issuedIn, concludedIn,
      List.flatMap_append, List.flatMap_singleton] at hissued ih ⊢
    refine (ih ?_).step call hissued
    rw [List.length_append] at hissued
    exact (Nat.le_add_right ..).trans_lt hissued

/-- What is pending and the transactions that wait for it go together. -/
structure InStep (c : Client) : Prop where
  tracked : c.pending.keys.Perm c.tokens
  distinct : c.tokens.Nodup
  active : ∀ t ∈ c.transactions.items, t.isActive
  waits : ∀ t ∈ c.transactions.items, t = if t.token = 0 then forGreeting else forReply t.token
  greeting {token : UInt64} {what : Request} : c.pending.get? token = some what →
    (token = 0 ↔ what = .hello)

theorem Tally.inStep {sent : List Message} {issued concluded : List UInt64}
    (h : Tally c sent issued concluded) : c.InStep where
  tracked := h.tokens ▸ List.Perm.refl _
  distinct := h.distinct
  active t ht := by
    rcases h.poised.regular t ht with rfl | ⟨token, rfl⟩ <;> rfl
  waits t ht := by
    rcases h.poised.regular t ht with rfl | ⟨token, rfl⟩
    · rfl
    · exact (if_neg (h.exists_pending ht).1).symm
  greeting {token what} hpending := by
    refine ⟨fun hzero => h.poised.greeting (hzero ▸ hpending), fun hhello => ?_⟩
    by_contra hzero
    obtain ⟨m, -, hm⟩ := List.mem_filterMap.mp ((h.pending hzero).mp hpending).1
    exact Message.request?_ne_hello hm hhello

/-- How the requests that a client makes go with the replies that it receives. -/
structure Correlates (c : Client) (calls : List ClientCall) : Prop where
  inStep : (c.run calls).InStep
  requests : (requestsIn (c.history calls)).map Prod.fst = issuedIn (c.history calls)
  issued : (issuedIn (c.history calls)).Nodup
  nonzero : 0 ∉ issuedIn (c.history calls)
  /-- The end of a request is told of when the reply to it comes, and in terms of both. -/
  told {before after : List ClientCall} {call : ClientCall} {n : Notice}
    (h : calls = before ++ call :: after) (hn : n ∈ ((c.run before).step call).concluding) :
    ∃ token error what, call.reply? = some (token, error) ∧
      (token, what) ∈ requestsIn (c.history before) ∧ n ∈ what.conclusion token error
  answered {before after : List ClientCall} {call : ClientCall} {token : UInt64} {error : Int32}
    {what : Request} (h : calls = before ++ call :: after)
    (hreply : call.reply? = some (token, error))
    (hrequest : (token, what) ∈ requestsIn (c.history before))
    (hopen : token ∉ concludedIn (c.history before)) :
    ((c.run before).step call).concluding = what.conclusion token error
  once : (concludedIn (c.history calls)).Nodup
  selected : (selections (sentIn (c.history calls))).length ≤ 1

theorem correlates_run (seed : UInt32) (calls : List ClientCall)
    (hissued : (issuedIn ((fresh seed).history calls)).length < UInt64.size) :
    (fresh seed).Correlates calls := by
  have h := tally_run seed calls hissued
  have hbefore {before call after} (hcalls : calls = before ++ call :: after) :=
    tally_run seed before (by
      rw [hcalls, history_append, issuedIn, List.flatMap_append, List.length_append] at hissued
      exact (Nat.le_add_right ..).trans_lt hissued)
  obtain ⟨start, hstart⟩ := h.numbered
  constructor
  · exact h.inStep
  · exact h.requests
  · exact hstart.nodup (Nat.le_sub_one_of_lt hissued)
  · exact hstart.nonzero
  · exact fun hcalls => (hbefore hcalls).told
  · exact fun hcalls => (hbefore hcalls).answered
  · exact h.once
  · rcases h.selected with hnone | ⟨hone, -⟩
    · exact hnone ▸ Nat.zero_le 1
    · exact hone.le

def bringing (m : Except Fault Message) : List ClientCall := m.toOption.toList.map .receive

def closing : List ClientCall :=
  .command .close :: bringing (Message.reply 1 Opcode.close.code Errno.noEntry) ++
    bringing (Message.reply 1 Opcode.close.code Errno.ok)

set_option maxRecDepth 100000 in
theorem correlates_run_closing : (issuedIn ((fresh 0).history closing)).length < UInt64.size ∧
    (fresh 0).Correlates closing ∧
    ((fresh 0).history closing).flatMap ClientStep.concluding = [.closed] := by
  have hissued : (issuedIn ((fresh 0).history closing)).length < UInt64.size :=
    ((fresh 0).length_issuedIn_le closing).trans_lt (by decide +kernel)
  exact ⟨hissued, correlates_run 0 closing hissued, by decide +kernel⟩

end Client

end Arbiter
