import Mathlib.Order.Bounds.Defs
import Arbiter.Proofs.Client.Bookkeeping

/-!
What a client fails for. It refuses a message that fails its check and, of all that pass theirs, at
most one, the first greeting, if it has no version in common with the server; the greatest of them
is selected otherwise and is the only one that the client is ever connected with. What it gives its
caller to send passes the check.
-/

namespace Arbiter

@[ext]
structure Greeting where
  version : UInt32
  minVersion : UInt32

def Greeting.Offers (g : Greeting) (version : UInt32) : Prop :=
  (g.minVersion ≤ version ∧ version ≤ g.version) ∧
    protocolMinVersion ≤ version ∧ version ≤ protocolVersion

def Message.greeting? (m : Message) : Option Greeting :=
  match m.check, m.decode with
  | .ok _, .ok (.hello version minVersion) => some ⟨version, minVersion⟩
  | _, _ => none

def ClientCall.greeting? : ClientCall → Option Greeting
  | .command _ => none
  | .receive m => m.greeting?

def greetingIn (calls : List ClientCall) : Option Greeting :=
  calls.findSome? ClientCall.greeting?

def Notice.version? : Notice → Option UInt32
  | .connected version => some version
  | _ => none

def ClientStep.versions (s : ClientStep) : List UInt32 :=
  s.reaction.notices.filterMap Notice.version?

def versionsIn (steps : List ClientStep) : List UInt32 := steps.flatMap ClientStep.versions

section Greeting

variable {m : Message} {g : Greeting} {version : UInt32}

theorem Message.greeting?_eq_some : m.greeting? = some g ↔
    m.check = .ok () ∧ m.decode = .ok (.hello g.version g.minVersion) := by
  unfold greeting?
  cases m.check with
  | error fault => simp
  | ok =>
    cases m.decode with
    | error fault => simp
    | ok content => cases content <;> simp [Greeting.ext_iff]

theorem Message.exists_greeting (hcheck : m.check = .ok ())
    (hop : m.opcode? = some Opcode.hello.code) : ∃ g, m.greeting? = some g := by
  obtain ⟨content, hdecode, hop'⟩ := exists_decode hcheck
  have hhello : content.opcode = .hello :=
    Opcode.code_inj.mp (Option.some.inj (hop'.symm.trans hop))
  cases content with
  | hello version minVersion =>
    exact ⟨⟨version, minVersion⟩, greeting?_eq_some.mpr ⟨hcheck, hdecode⟩⟩
  | event e => cases hneeds : e.needsVerdict <;> simp [Content.opcode, hneeds] at hhello
  | outcome token you => cases you <;> cases hhello
  | _ => cases hhello

theorem greetingIn_snoc (calls : List ClientCall) (call : ClientCall) :
    greetingIn (calls ++ [call]) = (greetingIn calls).or call.greeting? := by
  rw [greetingIn, List.findSome?_append, List.findSome?_singleton, greetingIn]

theorem Greeting.offers_iff : g.Offers version ↔
    max g.minVersion protocolMinVersion ≤ version ∧ version ≤ min g.version protocolVersion := by
  -- A range of versions is empty where its ends are reversed.
  have hmax : max g.minVersion protocolMinVersion =
      if g.minVersion ≤ protocolMinVersion then protocolMinVersion else g.minVersion := rfl
  rw [Std.le_min_iff, hmax]
  simp only [Offers, UInt32.le_iff_toNat_le]
  split <;> omega

theorem Greeting.isGreatest_min
    (h : max g.minVersion protocolMinVersion ≤ min g.version protocolVersion) :
    IsGreatest {version | g.Offers version} (min g.version protocolVersion) :=
  ⟨offers_iff.mpr ⟨h, UInt32.le_refl _⟩, fun _ hoffers => (offers_iff.mp hoffers).2⟩

end Greeting

namespace Client

open Transaction

variable {c : Client} {m : Message} {g : Greeting} {token : UInt64} {error : Int32}

theorem greeted_cases (c : Client) (g : Greeting) :
    (¬∃ version, g.Offers version) ∧ c.greeted g.version g.minVersion =
        (.error (.incompatible g.minVersion g.version), c) ∨
      ∃ version versel, IsGreatest {version | g.Offers version} version ∧
        Message.versel c.nextToken version = .ok versel ∧
        c.greeted g.version g.minVersion = (.ok ⟨[versel], []⟩, c.asked (.versel version)) := by
  simp only [greeted]
  by_cases hspoken : min g.version protocolVersion < max g.minVersion protocolMinVersion
  · rw [if_pos hspoken]
    refine .inl ⟨?_, rfl⟩
    rintro ⟨version, hoffers⟩
    obtain ⟨hmin, hmax⟩ := Greeting.offers_iff.mp hoffers
    exact UInt32.not_le.mpr hspoken (UInt32.le_trans hmin hmax)
  · rw [if_neg hspoken]
    obtain ⟨versel, hversel⟩ := Message.exists_versel c.nextToken (min g.version protocolVersion)
    have hasked := @request_of_write c versel (.versel (min g.version protocolVersion))
      (fun token => Message.versel token _) hversel
    rw [hasked]
    exact .inr ⟨_, versel, Greeting.isGreatest_min (UInt32.not_lt.mp hspoken), hversel, rfl⟩

theorem Poised.receive_greeting (hc : c.Poised) (hwaits : forGreeting ∈ c.transactions.items)
    (hpending : c.pending.get? 0 = some .hello) (hm : m.greeting? = some g) :
    ∃ i, c.transactions.items[i]? = some forGreeting ∧
      c.receive m = (c.settled i 0 c.version).greeted g.version g.minVersion := by
  obtain ⟨hcheck, hdecode⟩ := Message.greeting?_eq_some.mp hm
  have hop : m.opcode? = some Opcode.hello.code := Message.opcode?_of_decode hdecode
  have htoken : m.token?.getD 0 = 0 := by
    rw [Message.token?_of_decode hdecode]
    rfl
  have hpeer : (m.opcode? == some Opcode.reply.code) = false := by
    rw [hop]
    decide
  simp only [receive, hcheck, hpeer, TransactionSet.deliver]
  cases hroute : c.transactions.route? m false with
  | none =>
    exact absurd (forGreeting_wants.mpr ⟨htoken, rfl, rfl⟩)
      (TransactionSet.route?_eq_none hop hroute hwaits)
  | some target =>
    obtain ⟨i, t⟩ := target
    obtain ⟨hi, opcode, -, hwants⟩ := TransactionSet.route?_eq_some hroute
    rcases hc.regular t (List.mem_of_getElem? hi) with rfl | ⟨own, rfl⟩
    · refine ⟨i, hi, ?_⟩
      show Client.finished _ (forGreeting.finishedBy 0 m) = _
      rw [finished_finishedBy]
      simp only [forGreeting, hpending, concluded, Option.map_some, hdecode]
      rfl
    · exact absurd (forReply_wants.mp hwants).2.1 Bool.false_ne_true

theorem exists_unsolicited (hcheck : m.check = .ok ()) : ∃ reaction,
    unsolicited m = .ok reaction ∧ reaction.send = [] ∧
      reaction.notices.filterMap Notice.version? = [] := by
  obtain ⟨content, hm, -⟩ := Message.exists_decode hcheck
  obtain ⟨reaction, hreaction⟩ : ∃ reaction, unsolicited m = .ok reaction := by
    rw [unsolicited, hm]
    cases content <;> exact ⟨_, rfl⟩
  obtain ⟨hsend, hconclusion⟩ := unsolicited_eq_ok hreaction
  refine ⟨reaction, hreaction, hsend, List.filterMap_eq_nil_iff.mpr fun n hn => ?_⟩
  have hnot := hconclusion n hn
  cases n with
  | connected => exact absurd rfl hnot
  | _ => rfl

theorem versions_conclusion (c : Client) (token : UInt64) (error : Int32) :
    (c.conclusion token error).filterMap Notice.version? = match c.pending.get? token with
      | some (.versel version) => if error = 0 then [version] else []
      | _ => [] := by
  cases hpending : c.pending.get? token with
  | none => rw [conclusion_of_idle error hpending]; rfl
  | some what =>
    rw [conclusion_of_pending error hpending]
    cases what <;> simp only [Request.conclusion] <;> first | rfl | (split <;> rfl)

theorem versions_writing (c : Client) (call : ClientCall)
    (result : Except ClientError Message × Client) :
    (ClientStep.of c call (writing result)).versions = [] := by
  obtain ⟨message | error, c'⟩ := result <;> rfl

theorem versions_receive {reaction : Reaction} (h : (c.receive m).1 = .ok reaction) :
    (c.step (.receive m)).versions = reaction.notices.filterMap Notice.version? := by
  rw [ClientStep.versions, step, perform, ClientStep.of, h]
  rfl

theorem versions_receive_error {e : ClientError} (h : (c.receive m).1 = .error e) :
    (c.step (.receive m)).versions = [] := by
  rw [ClientStep.versions, step, perform, ClientStep.of, h]
  rfl

/-- How far the selection of a version has come after the first greeting, if there was one, and
with the versions that the caller was told. -/
inductive Negotiation (c : Client) : Option Greeting → List UInt32 → Prop where
  | waiting (rest : List (Transaction Unit Empty))
      (hitems : c.transactions.items = forGreeting :: rest)
      (hrest : ∀ t ∈ rest, ∃ token, token ≠ 0 ∧ t = forReply token)
      (hpending : c.pending.get? 0 = some .hello)
      (hnone : ∀ token version, c.pending.get? token ≠ some (.versel version)) :
      Negotiation c none []
  | past {g versions} (hgone : forGreeting ∉ c.transactions.items)
      (hselected : ∀ {token version}, c.pending.get? token = some (.versel version) →
        IsGreatest {version | g.Offers version} version ∧ versions = [])
      (hsingle : ∀ {token token' version version'},
        c.pending.get? token = some (.versel version) →
          c.pending.get? token' = some (.versel version') → token = token')
      (hversions : versions = [] ∨
        ∃ version, versions = [version] ∧ IsGreatest {version | g.Offers version} version) :
      Negotiation c (some g) versions

namespace Negotiation

variable {g? : Option Greeting} {versions : List UInt32}

theorem asked (h : Negotiation c g? versions) (hc : c.Poised) {what : Request}
    (hwhat : ∀ version, what ≠ .versel version) : Negotiation (c.asked what) g? versions := by
  have hget (token : UInt64) : (c.asked what).pending.get? token =
      if token = c.nextToken then some what else c.pending.get? token := Table.get?_insert ..
  have hold {token : UInt64} {version : UInt32}
      (h : (c.asked what).pending.get? token = some (.versel version)) :
      c.pending.get? token = some (.versel version) := by
    rw [hget] at h
    split at h
    · exact absurd (Option.some.inj h) (hwhat version)
    · exact h
  cases h with
  | waiting rest hitems hrest hpending hnone =>
    refine .waiting (rest ++ [forReply c.nextToken]) ?_ ?_ ?_ ?_
    · exact congrArg (· ++ [forReply c.nextToken]) hitems
    · intro t ht
      rcases List.mem_append.mp ht with ht | ht
      · exact hrest t ht
      · exact ⟨c.nextToken, hc.nonzero, List.mem_singleton.mp ht⟩
    · rw [hget, if_neg hc.nonzero.symm, hpending]
    · exact fun token version h => hnone token version (hold h)
  | past hgone hselected hsingle hversions =>
    refine .past (fun hmem => ?_) (fun h => hselected (hold h))
      (fun h h' => hsingle (hold h) (hold h')) hversions
    rcases List.mem_append.mp hmem with hmem | hmem
    · exact hgone hmem
    · exact forGreeting_ne_forReply _ (List.mem_singleton.mp hmem)

theorem replied (h : Negotiation c g? versions) {i : Nat}
    (hi : c.transactions.items[i]? = some (forReply token)) (version : Option UInt32) :
    Negotiation (c.settled i token version) g?
      (versions ++ (c.conclusion token error).filterMap Notice.version?) := by
  have hget (token' : UInt64) : (c.settled i token version).pending.get? token' =
      if token' = token then none else c.pending.get? token' := Table.get?_erase ..
  have hold {token' : UInt64} {version' : UInt32}
      (h : (c.settled i token version).pending.get? token' = some (.versel version')) :
      token' ≠ token ∧ c.pending.get? token' = some (.versel version') := by
    rw [hget] at h
    split at h
    · cases h
    · exact ⟨‹_›, h⟩
  rw [versions_conclusion]
  cases h with
  | waiting rest hitems hrest hpending hnone =>
    obtain ⟨j, rfl, hj⟩ : ∃ j, i = j + 1 ∧ rest[j]? = some (forReply token) := by
      rw [hitems] at hi
      cases i with
      | zero => exact absurd (Option.some.inj hi) (forGreeting_ne_forReply token)
      | succ j => exact ⟨j, rfl, hi⟩
    obtain ⟨own, hown, hsame⟩ := hrest _ (List.mem_of_getElem? hj)
    obtain rfl : token = own := congrArg Transaction.token hsame
    have hnothing : (match c.pending.get? token with
        | some (.versel version) => if error = 0 then [version] else []
        | _ => []) = [] := by
      split
      · exact absurd ‹_› (hnone token _)
      · rfl
    rw [hnothing]
    refine .waiting (rest.eraseIdx j) ?_ ?_ ?_ ?_
    · exact congrArg (List.eraseIdx · (j + 1)) hitems
    · exact fun t ht => hrest t (List.mem_of_mem_eraseIdx ht)
    · rw [hget, if_neg hown.symm, hpending]
    · exact fun token' version' h => hnone token' version' (hold h).2
  | past hgone hselected hsingle hversions =>
    have hgone' : forGreeting ∉ (c.settled i token version).transactions.items :=
      fun hmem => hgone (List.mem_of_mem_eraseIdx hmem)
    split
    · rename_i selected hpending
      obtain ⟨hgreatest, rfl⟩ := hselected hpending
      refine .past hgone' (fun h => ?_) (fun h => ?_) ?_
      · exact absurd (hsingle (hold h).2 hpending) (hold h).1
      · exact absurd (hsingle (hold h).2 hpending) (hold h).1
      · split
        · exact .inr ⟨selected, rfl, hgreatest⟩
        · exact .inl rfl
    · rw [List.append_nil]
      exact .past hgone' (fun h => hselected (hold h).2)
        (fun h h' => hsingle (hold h).2 (hold h').2) hversions

theorem greeted (hc : c.Poised) (h : Negotiation c none versions) (hm : m.greeting? = some g) :
    versions = [] ∧ Negotiation (c.receive m).2 (some g) [] ∧
      ((¬∃ version, g.Offers version) ∧
          (c.receive m).1 = .error (.incompatible g.minVersion g.version) ∨
        ∃ version versel, IsGreatest {version | g.Offers version} version ∧
          Message.versel c.nextToken version = .ok versel ∧
          (c.receive m).1 = .ok ⟨[versel], []⟩) := by
  cases h with
  | waiting rest hitems hrest hpending hnone =>
    have hwaits : forGreeting ∈ c.transactions.items := hitems ▸ List.mem_cons_self
    obtain ⟨i, hi, hreceive⟩ := hc.receive_greeting hwaits hpending hm
    obtain rfl : i = 0 := by
      rw [hitems] at hi
      cases i with
      | zero => rfl
      | succ j =>
        obtain ⟨token, -, hreply⟩ := hrest _ (List.mem_of_getElem? hi)
        exact absurd hreply (forGreeting_ne_forReply token)
    have hgone : forGreeting ∉ (c.settled 0 0 c.version).transactions.items := by
      intro hmem
      rw [settled, hitems] at hmem
      obtain ⟨token, -, hreply⟩ := hrest _ hmem
      exact forGreeting_ne_forReply token hreply
    have hunselected (token : UInt64) (version : UInt32) :
        (c.settled 0 0 c.version).pending.get? token ≠ some (.versel version) := by
      rw [settled, Table.get?_erase]
      split
      · exact (Option.some_ne_none _).symm
      · exact hnone token version
    refine ⟨rfl, ?_⟩
    rw [hreceive]
    rcases greeted_cases (c.settled 0 0 c.version) g with ⟨hnot, hgreeted⟩ |
      ⟨version, versel, hgreatest, hversel, hgreeted⟩ <;> rw [hgreeted]
    · exact ⟨.past hgone (fun h => absurd h (hunselected _ _))
        (fun h => absurd h (hunselected _ _)) (.inl rfl), .inl ⟨hnot, rfl⟩⟩
    · have hselected {token : UInt64} {version' : UInt32}
          (h : ((c.settled 0 0 c.version).asked (.versel version)).pending.get? token =
            some (.versel version')) : token = c.nextToken ∧ version' = version := by
        rw [Client.asked, Table.get?_insert] at h
        split at h
        · exact ⟨‹_›, (Request.versel.inj (Option.some.inj h)).symm⟩
        · exact absurd h (hunselected _ _)
      refine ⟨.past (fun hmem => ?_) (fun h => ?_) (fun h h' => ?_) (.inl rfl),
        .inr ⟨version, versel, hgreatest, hversel, rfl⟩⟩
      · rcases List.mem_append.mp hmem with hmem | hmem
        · exact hgone hmem
        · exact forGreeting_ne_forReply _ (List.mem_singleton.mp hmem)
      · exact ⟨(hselected h).2 ▸ hgreatest, rfl⟩
      · exact (hselected h).1.trans (hselected h').1.symm

theorem received (hc : c.Poised) (h : Negotiation c g? versions) (hcheck : m.check = .ok ())
    (hm : g? = none → m.greeting? = none) : ∃ reaction,
    (c.receive m).1 = .ok reaction ∧ reaction.send = [] ∧
      Negotiation (c.receive m).2 g? (versions ++ reaction.notices.filterMap Notice.version?) := by
  have hno {i : Nat} (hop : m.opcode? = some Opcode.hello.code)
      (hi : c.transactions.items[i]? = some forGreeting) : False := by
    cases h with
    | waiting =>
      obtain ⟨g, hg⟩ := Message.exists_greeting hcheck hop
      cases (hm rfl).symm.trans hg
    | past hgone => exact hgone (List.mem_of_getElem? hi)
  have hreceived := hc.received hcheck
  generalize c.receive m = result at hreceived ⊢
  cases hreceived with
  | unsolicited =>
    obtain ⟨reaction, hreaction, hsend, hnone⟩ := exists_unsolicited hcheck
    refine ⟨reaction, hreaction, hsend, ?_⟩
    rwa [hnone, List.append_nil]
  | ignored hop hi => exact (hno hop hi).elim
  | greeted hop hi => exact (hno hop hi).elim
  | replied version hi hm => exact ⟨_, rfl, rfl, h.replied hi version⟩

theorem command (h : Negotiation c g? versions) (hc : c.Poised) (command : ClientCommand) :
    Negotiation (c.command command).2 g? versions := by
  have hasks {what : Request} {result : Except ClientError Message × Client}
      (hwhat : ∀ version, what ≠ .versel version) (ha : Asks c what result) :
      Negotiation result.2 g? versions := by
    cases ha with
    | refused => exact h
    | sent => exact h.asked hc hwhat
  cases command with
  | register f => exact hasks (fun _ => Request.noConfusion) (c.register_asks f)
  | unregister f => exact hasks (fun _ => Request.noConfusion) (c.unregister_asks f)
  | answer => exact h
  | close => exact hasks (fun _ => Request.noConfusion) c.close_asks

theorem step (h : Negotiation c g? versions) (hc : c.Poised) (call : ClientCall) :
    Negotiation (c.perform call).2 (g?.or call.greeting?) (versions ++ (c.step call).versions) := by
  cases call with
  | command command =>
    have hquiet : (c.step (.command command)).versions = [] := by
      cases command <;> exact versions_writing ..
    rw [hquiet, List.append_nil, ClientCall.greeting?, Option.or_none]
    exact h.command hc command
  | receive m =>
    cases hcheck : m.check with
    | error fault =>
      have hgreeting : m.greeting? = none := by
        rw [Message.greeting?, hcheck]
      have hquiet : (c.step (.receive m)).versions = [] := by
        rw [Client.step, perform, receive_of_malformed hcheck]
        rfl
      rw [hquiet, List.append_nil, ClientCall.greeting?, hgreeting, Option.or_none, perform,
        receive_of_malformed hcheck]
      exact h
    | ok =>
      by_cases hfirst : g? = none → m.greeting? = none
      · obtain ⟨reaction, hreaction, -, hreceived⟩ := h.received hc hcheck hfirst
        have hsame : g?.or (ClientCall.receive m).greeting? = g? := by
          cases g? with
          | none => exact hfirst rfl
          | some g => rfl
        rw [versions_receive hreaction, hsame]
        exact hreceived
      · obtain ⟨rfl, hsome⟩ := Classical.not_imp.mp hfirst
        obtain ⟨g, hg⟩ := Option.ne_none_iff_exists'.mp hsome
        obtain ⟨rfl, hgreeted, hresult⟩ := greeted hc h hg
        have hquiet : (c.step (.receive m)).versions = [] := by
          rcases hresult with ⟨-, herror⟩ | ⟨-, versel, -, -, hsent⟩
          · exact versions_receive_error herror
          · exact versions_receive hsent
        rw [hquiet, List.nil_append, ClientCall.greeting?, hg]
        exact hgreeted

end Negotiation

theorem negotiation_fresh (seed : UInt32) : Negotiation (fresh seed) none [] := by
  have hinsert : (fresh seed).pending = Table.empty.insert 0 .hello := rfl
  refine .waiting [] rfl (fun t ht => nomatch ht) ?_ fun token version h => ?_
  · rw [hinsert, Table.get?_insert, if_pos rfl]
  · rw [hinsert, Table.get?_insert] at h
    split at h <;> cases h

theorem negotiation_run (seed : UInt32) (calls : List ClientCall) :
    Negotiation ((fresh seed).run calls) (greetingIn calls)
      (versionsIn ((fresh seed).history calls)) := by
  induction calls using List.reverseRecOn with
  | nil => exact negotiation_fresh seed
  | append_singleton calls call ih =>
    simp only [run_snoc, greetingIn_snoc, history_append, history, versionsIn, List.flatMap_append,
      List.flatMap_singleton]
    exact ih.step (poised_run seed calls) call

theorem check_of_written {what : Request} (h : what.Written token m) : m.check = .ok () := by
  cases h with
  | versel h => exact Message.check_of_compose h (Message.decode_versel h)
  | close h => exact Message.check_of_compose h (Message.decode_close h)
  | register h =>
    have hdecode := Message.decode_register h
    unfold Message.register Message.registration at h
    exact Message.check_of_compose h hdecode
  | unregister h =>
    have hdecode := Message.decode_unregister h
    unfold Message.unregister Message.registration at h
    exact Message.check_of_compose h hdecode

theorem Asks.checked {what : Request} {result : Except ClientError Message × Client}
    (ha : Asks c what result) (h : result.1 = .ok m) : m.check = .ok () := by
  cases ha with
  | refused => cases h
  | sent hwritten => exact Except.ok.inj h ▸ check_of_written hwritten

theorem checked_writing {call : ClientCall} {result : Except ClientError Message × Client}
    (hresult : ∀ m, result.1 = .ok m → m.check = .ok ())
    (hm : m ∈ (ClientStep.of c call (writing result)).reaction.send) : m.check = .ok () := by
  obtain ⟨error | sent, c'⟩ := result
  · cases hm
  · exact List.mem_singleton.mp hm ▸ hresult sent rfl

theorem Poised.checked (hc : c.Poised) {call : ClientCall}
    (hm : m ∈ (c.step call).reaction.send) : m.check = .ok () := by
  cases call with
  | command command =>
    cases command with
    | register f => exact checked_writing (fun _ => (c.register_asks f).checked) hm
    | unregister f => exact checked_writing (fun _ => (c.unregister_asks f).checked) hm
    | close => exact checked_writing (fun _ => c.close_asks.checked) hm
    | answer token verdict delegate =>
      have hchecked (m : Message) (h : c.answer token verdict delegate = .ok m) :
          m.check = .ok () := by
        have hanswer := answer_eq_ok h
        exact Message.check_of_compose hanswer (Message.decode_answer hanswer)
      exact @checked_writing _ _ _ (c.answer token verdict delegate, c) hchecked hm
  | receive m' =>
    cases hcheck : m'.check with
    | error fault =>
      rw [step, perform, receive_of_malformed hcheck] at hm
      cases hm
    | ok =>
      have hreceived := hc.received hcheck
      rw [step, perform] at hm
      generalize c.receive m' = result at hreceived hm
      cases hreceived with
      | unsolicited =>
        rw [send_unsolicited] at hm
        cases hm
      | greeted _ _ ha => exact checked_writing (fun _ => ha.checked) hm
      | ignored | replied => cases hm

theorem checked_run (seed : UInt32) (calls : List ClientCall) :
    ∀ m ∈ sentIn ((fresh seed).history calls), m.check = .ok () := by
  induction calls using List.reverseRecOn with
  | nil => exact List.forall_mem_nil _
  | append_singleton calls call ih =>
    simp only [history_append, history, sentIn, List.flatMap_append, List.flatMap_singleton]
    exact List.forall_mem_append.mpr ⟨ih, fun m hm => (poised_run seed calls).checked hm⟩

/-- What a client called for all this makes of any message, and has made of those before. -/
structure FailsForCause (c : Client) (calls : List ClientCall) : Prop where
  malformed {m : Message} {fault : Fault} : m.check = .error fault →
    (c.run calls).receive m = (.error (.malformed fault), c.run calls)
  /-- The only other failure is the first greeting, if no version is common to both sides. -/
  fails {m : Message} : (∃ e, ((c.run calls).receive m).1 = .error e) ↔
    (∃ fault, m.check = .error fault) ∨
      ∃ g, greetingIn calls = none ∧ m.greeting? = some g ∧ ¬∃ version, g.Offers version
  incompatible {m : Message} {g : Greeting} : greetingIn calls = none → m.greeting? = some g →
    (¬∃ version, g.Offers version) →
      ((c.run calls).receive m).1 = .error (.incompatible g.minVersion g.version)
  selects {m : Message} {g : Greeting} : greetingIn calls = none → m.greeting? = some g →
    (∃ version, g.Offers version) → ∃ version versel token,
      IsGreatest {version | g.Offers version} version ∧
      versel.decode = .ok (.versel token version) ∧
      ((c.run calls).receive m).1 = .ok ⟨[versel], []⟩
  /-- Nothing else that is received is answered at once. -/
  silent {m : Message} {reaction : Reaction} : (greetingIn calls = none → m.greeting? = none) →
    ((c.run calls).receive m).1 = .ok reaction → reaction.send = []
  connected : versionsIn (c.history calls) = [] ∨ ∃ g version, greetingIn calls = some g ∧
    IsGreatest {version | g.Offers version} version ∧ versionsIn (c.history calls) = [version]
  checked : ∀ m ∈ sentIn (c.history calls), m.check = .ok ()

theorem Negotiation.connected {g? : Option Greeting} {versions : List UInt32}
    (h : Negotiation c g? versions) : versions = [] ∨ ∃ g version, g? = some g ∧
      IsGreatest {version | g.Offers version} version ∧ versions = [version] := by
  cases h with
  | waiting => exact .inl rfl
  | past _ _ _ hversions =>
    exact hversions.imp_right fun ⟨version, heq, hgreatest⟩ => ⟨_, version, rfl, hgreatest, heq⟩

theorem Negotiation.fails_iff {g? : Option Greeting} {versions : List UInt32} (hc : c.Poised)
    (h : Negotiation c g? versions) : (∃ e, (c.receive m).1 = .error e) ↔
      (∃ fault, m.check = .error fault) ∨
        ∃ g, g? = none ∧ m.greeting? = some g ∧ ¬∃ version, g.Offers version := by
  constructor
  · rintro ⟨e, he⟩
    cases hcheck : m.check with
    | error fault => exact .inl ⟨fault, rfl⟩
    | ok =>
      by_cases hnot : g? = none → m.greeting? = none
      · obtain ⟨reaction, hreaction, -⟩ := h.received hc hcheck hnot
        cases he.symm.trans hreaction
      · obtain ⟨rfl, hsome⟩ := Classical.not_imp.mp hnot
        obtain ⟨g, hg⟩ := Option.ne_none_iff_exists'.mp hsome
        rcases (greeted hc h hg).2.2 with ⟨hnothing, -⟩ | ⟨version, versel, -, -, hsent⟩
        · exact .inr ⟨g, rfl, hg, hnothing⟩
        · cases he.symm.trans hsent
  · rintro (⟨fault, hcheck⟩ | ⟨g, rfl, hg, hnothing⟩)
    · exact ⟨_, congrArg Prod.fst (receive_of_malformed hcheck)⟩
    · rcases (greeted hc h hg).2.2 with ⟨-, herror⟩ | ⟨version, versel, hgreatest, -⟩
      · exact ⟨_, herror⟩
      · exact absurd ⟨version, hgreatest.1⟩ hnothing

theorem Negotiation.silent {g? : Option Greeting} {versions : List UInt32} (hc : c.Poised)
    (h : Negotiation c g? versions) (hnot : g? = none → m.greeting? = none) {reaction : Reaction}
    (hreaction : (c.receive m).1 = .ok reaction) : reaction.send = [] := by
  cases hcheck : m.check with
  | error fault =>
    rw [receive_of_malformed hcheck] at hreaction
    cases hreaction
  | ok =>
    obtain ⟨reaction', hreaction', hsend, -⟩ := h.received hc hcheck hnot
    obtain rfl := Except.ok.inj (hreaction'.symm.trans hreaction)
    exact hsend

theorem failsForCause_run (seed : UInt32) (calls : List ClientCall) :
    (fresh seed).FailsForCause calls := by
  have hc := poised_run seed calls
  have h := negotiation_run seed calls
  have hfirst {m : Message} {g : Greeting} (hnone : greetingIn calls = none)
      (hm : m.greeting? = some g) := (Negotiation.greeted hc (hnone ▸ h) hm).2.2
  constructor
  case malformed => exact receive_of_malformed
  case fails => exact h.fails_iff hc
  case incompatible =>
    intro m g hnone hg hnothing
    rcases hfirst hnone hg with ⟨-, herror⟩ | ⟨version, versel, hgreatest, -⟩
    · exact herror
    · exact absurd ⟨version, hgreatest.1⟩ hnothing
  case selects =>
    intro m g hnone hg hsome
    rcases hfirst hnone hg with ⟨hnothing, -⟩ | ⟨version, versel, hgreatest, hversel, hsent⟩
    · exact absurd hsome hnothing
    · exact ⟨version, versel, _, hgreatest, Message.decode_versel hversel, hsent⟩
  case silent => exact fun hnot => h.silent hc hnot
  case connected => exact h.connected
  case checked => exact checked_run seed calls

end Client

end Arbiter
