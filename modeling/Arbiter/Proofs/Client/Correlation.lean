import Arbiter.Client.Basic
import Arbiter.Proofs.Message.Headers

/-!
Which of its transactions a client takes a message for. It begins two kinds of them, one that waits
for the greeting and one for each request that waits for a reply; a reply goes to the request of its
token, whatever opcode it says it answers, and what no transaction waits for is reported as it is.
-/

namespace Arbiter

namespace Transaction

def forGreeting : Transaction Unit Empty :=
  ⟨0, Client.greetingFlags, [Opcode.hello.code], .active 0, none, none, []⟩

def forReply (token : UInt64) : Transaction Unit Empty :=
  ⟨token, Client.requestFlags, [Opcode.reply.code], .active 0, some (), none, []⟩

def finishedBy (t : Transaction Unit Empty) (code : Int32) (m : Message) :
    Transaction Unit Empty :=
  { t with state := .done code, retained := [m] }

variable {m : Message} {own token : UInt64} {isSelf : Bool} {opcode : UInt32} {error : Int32}

theorem forGreeting_wants : forGreeting.wants token isSelf opcode = true ↔
    token = 0 ∧ isSelf = false ∧ opcode = Opcode.hello.code := by
  cases isSelf <;>
    simp [wants, forGreeting, isActive, directionFits, Client.greetingFlags, @eq_comm _ 0 token]

theorem forReply_wants : (forReply own).wants token isSelf opcode = true ↔
    own = token ∧ isSelf = true ∧ opcode = Opcode.reply.code := by
  cases isSelf <;> simp [wants, forReply, isActive, directionFits, Client.requestFlags]

theorem forReply_process (hm : m.decode = .ok (.reply token opcode error)) :
    (forReply own).process Client.replyReactor m =
      .ok ⟨(forReply own).finishedBy error m, none⟩ := by
  simp [process, react, retain, isActive, perform, done, forReply, finishedBy, Client.replyReactor,
    Client.requestFlags, hm]

end Transaction

theorem Table.erase_of_absent {κ α : Type} [DecidableEq κ] {t : Table κ α} {k : κ}
    (h : t.get? k = none) : t.erase k = t := by
  have hentries : t.entries.filter (·.1 ≠ k) = t.entries := by
    refine List.filter_eq_self.mpr fun e he => ?_
    have hne : e.1 ≠ k := fun hk =>
      Table.get?_eq_none.mp h (List.mem_map.mpr ⟨e, he, hk⟩)
    simpa using hne
  cases t
  simp only [erase, hentries]

namespace TransactionSet

variable {s : TransactionSet Unit Empty} {m : Message} {isSelf : Bool} {opcode : UInt32}

theorem route?_eq_none (hop : m.opcode? = some opcode) (h : s.route? m isSelf = none)
    {t : Transaction Unit Empty} (ht : t ∈ s.items) :
    ¬t.wants (m.token?.getD 0) isSelf opcode = true := by
  simp only [route?, position?, hop, Option.bind_eq_bind, Option.bind_some] at h
  cases hi : s.items.findIdx? (·.wants (m.token?.getD 0) isSelf opcode) with
  | none => exact Bool.not_eq_true _ ▸ List.findIdx?_eq_none_iff.mp hi t ht
  | some i =>
    obtain ⟨hlt, -⟩ := List.findIdx?_eq_some_iff_getElem.mp hi
    simp [hi, List.getElem?_eq_getElem hlt, pure] at h

theorem route?_eq_some {i : Nat} {t : Transaction Unit Empty}
    (h : s.route? m isSelf = some (i, t)) : s.items[i]? = some t ∧
      ∃ opcode, m.opcode? = some opcode ∧ t.wants (m.token?.getD 0) isSelf opcode = true := by
  simp only [route?, position?, Option.bind_eq_bind, Option.bind_eq_some_iff, pure,
    Option.some.injEq, Prod.mk.injEq] at h
  obtain ⟨i, ⟨opcode, hop, hi⟩, t, ht, rfl, rfl⟩ := h
  obtain ⟨hlt, hwants, -⟩ := List.findIdx?_eq_some_iff_getElem.mp hi
  rw [List.getElem?_eq_getElem hlt, Option.some.injEq] at ht
  exact ⟨by rw [← ht, List.getElem?_eq_getElem hlt], opcode, hop, ht ▸ hwants⟩

end TransactionSet

namespace Client

open Transaction

variable {c : Client} {m : Message} {token : UInt64}

def advance (c : Client) : Client := c.takeToken.2

def asked (c : Client) (what : Request) : Client :=
  { c.advance with
    transactions := c.transactions.insert (forReply c.nextToken)
    pending := c.pending.insert c.nextToken what }

end Client

inductive Request.Written : Request → UInt64 → Message → Prop where
  | versel {version token m} (h : Message.versel token version = .ok m) :
      Written (.versel version) token m
  | register {f token m} (h : Message.register ⟨token, f, none⟩ = .ok m) :
      Written (.register f) token m
  | unregister {f token m} (h : Message.unregister token f = .ok m) :
      Written (.unregister f) token m
  | close {token m} (h : Message.close token = .ok m) : Written .close token m

def Message.acknowledged? (m : Message) : Option (UInt64 × Int32) :=
  match m.decode with
  | .ok (.reply token _ error) => some (token, error)
  | _ => none

def Request.conclusion (token : UInt64) (error : Int32) : Request → List Notice
  | .hello => []
  | .versel version => [if error = 0 then .connected version else .refused error]
  | .register f => [if error = 0 then .registered token f else .requestFailed token error]
  | .unregister f => [if error = 0 then .unregistered token f else .requestFailed token error]
  | .close => [.closed]

def Notice.isConclusion : Notice → Bool
  | .connected _ | .refused _ | .registered _ _ | .unregistered _ _ | .requestFailed _ _
  | .closed => true
  | _ => false

theorem Request.conclusion_isConclusion {what : Request} {token : UInt64} {error : Int32}
    {n : Notice} (h : n ∈ what.conclusion token error) : n.isConclusion := by
  cases what with
  | hello => cases h
  | close =>
    obtain rfl := List.mem_singleton.mp h
    rfl
  | _ =>
    obtain rfl := List.mem_singleton.mp h
    split <;> rfl

theorem Request.length_conclusion {what : Request} (h : what ≠ .hello) (token : UInt64)
    (error : Int32) : (what.conclusion token error).length = 1 := by
  cases what with
  | hello => exact absurd rfl h
  | _ => rfl

namespace Client

open Transaction

variable {c : Client} {m : Message} {token : UInt64}

/-- How an attempt to ask for something ends: refused, or with a message to send and a reply to wait
for. -/
inductive Asks (c : Client) (what : Request) : Except ClientError Message × Client → Prop where
  | refused {e} (he : ∀ fault, e ≠ .malformed fault) : Asks c what (.error e, c)
  | sent {m : Message} (h : what.Written c.nextToken m) : Asks c what (.ok m, c.asked what)

theorem request_of_write {what : Request} {write : UInt64 → Except Fault Message}
    (h : write c.nextToken = .ok m) : c.request what write = (.ok m, c.asked what) := by
  simp only [request, takeToken, h]
  rfl

theorem request_asks (c : Client) {what : Request} {write : UInt64 → Except Fault Message}
    (hwrite : ∀ token, ∃ m, write token = .ok m) (hwritten : ∀ {token m}, write token = .ok m →
      what.Written token m) : Asks c what (c.request what write) := by
  obtain ⟨m, hm⟩ := hwrite c.nextToken
  rw [request_of_write hm]
  exact .sent (hwritten hm)

theorem register_asks (c : Client) (f : Filter) : Asks c (.register f) (c.register f) := by
  unfold register
  split
  · exact .refused fun _ => ClientError.noConfusion
  · exact c.request_asks (fun token => Message.exists_registration token .register f) .register

theorem unregister_asks (c : Client) (f : Filter) : Asks c (.unregister f) (c.unregister f) := by
  unfold unregister
  split
  · exact .refused fun _ => ClientError.noConfusion
  · exact c.request_asks (fun token => Message.exists_registration token .unregister f) .unregister

theorem answer_eq_ok {token : UInt64} {v : Verdict} {delegate : Bool}
    (h : c.answer token v delegate = .ok m) : Message.answer token v delegate = .ok m := by
  unfold answer at h
  split at h
  · cases h
  · cases hanswer : Message.answer token v delegate with
    | error fault =>
      rw [hanswer] at h
      cases h
    | ok m' =>
      rw [hanswer] at h
      exact congrArg Except.ok (Except.ok.inj h)

theorem close_asks (c : Client) : Asks c .close c.close :=
  c.request_asks Message.exists_close .close

def writing (result : Except ClientError Message × Client) : Except ClientError Reaction × Client :=
  (result.1.map fun m => ⟨[m], []⟩, result.2)

theorem greeted_asks (c : Client) (version minVersion : UInt32) :
    ∃ chosen result, Asks c (.versel chosen) result ∧
      c.greeted version minVersion = writing result := by
  refine ⟨min version protocolVersion, ?_⟩
  simp only [greeted]
  by_cases hspoken : min version protocolVersion < max minVersion protocolMinVersion
  · rw [if_pos hspoken]
    exact ⟨_, .refused fun _ => ClientError.noConfusion, rfl⟩
  · rw [if_neg hspoken]
    obtain ⟨m, hm⟩ := Message.exists_versel c.nextToken (min version protocolVersion)
    have hasked := @request_of_write c m (.versel (min version protocolVersion))
      (fun token => Message.versel token _) hm
    rw [hasked]
    exact ⟨_, .sent (.versel hm), rfl⟩

def Regular (c : Client) : Prop :=
  ∀ t ∈ c.transactions.items, t = forGreeting ∨ ∃ token, t = forReply token

def Awaits (c : Client) (token : UInt64) : Prop :=
  ∃ t ∈ c.transactions.items, t.wants token true Opcode.reply.code = true

theorem Regular.awaits_iff (hc : c.Regular) :
    c.Awaits token ↔ forReply token ∈ c.transactions.items := by
  constructor
  · rintro ⟨t, ht, hwants⟩
    rcases hc t ht with rfl | ⟨own, rfl⟩
    · exact absurd (forGreeting_wants.mp hwants).2.1 (by simp)
    · obtain ⟨rfl, -⟩ := forReply_wants.mp hwants
      exact ht
  · exact fun ht => ⟨_, ht, forReply_wants.mpr ⟨rfl, rfl, rfl⟩⟩

def settled (c : Client) (i : Nat) (token : UInt64) (version : Option UInt32) : Client :=
  { c with
    transactions := ⟨c.transactions.items.eraseIdx i⟩
    pending := c.pending.erase token
    version }

/-- What the caller is told of a reply; nothing if no request of its token is pending. -/
def conclusion (c : Client) (token : UInt64) (error : Int32) : List Notice :=
  ((c.pending.get? token).map (Request.conclusion token error)).getD []

theorem conclusion_of_pending {token : UInt64} {what : Request} (error : Int32)
    (h : c.pending.get? token = some what) :
    c.conclusion token error = what.conclusion token error := by
  rw [conclusion, h]
  rfl

theorem conclusion_of_idle {token : UInt64} (error : Int32) (h : c.pending.get? token = none) :
    c.conclusion token error = [] := by
  rw [conclusion, h]
  rfl

theorem unsolicited_eq_ok {reaction : Reaction} (h : unsolicited m = .ok reaction) :
    reaction.send = [] ∧ ∀ n ∈ reaction.notices, ¬n.isConclusion := by
  have hnotice {n : Notice} (hn : ¬n.isConclusion) : ∀ n' ∈ [n], ¬n'.isConclusion :=
    fun n' hn' => List.mem_singleton.mp hn' ▸ hn
  unfold unsolicited at h
  cases hm : m.decode with
  | error fault =>
    rw [hm] at h
    cases h
  | ok content =>
    rw [hm] at h
    cases content with
    | event e =>
      cases h
      refine ⟨rfl, hnotice ?_⟩
      split <;> exact Bool.false_ne_true
    | reply token opcode error =>
      cases h
      split
      · exact ⟨rfl, hnotice Bool.false_ne_true⟩
      · exact ⟨rfl, fun n hn => nomatch hn⟩
    | outcome | status =>
      cases h
      exact ⟨rfl, hnotice Bool.false_ne_true⟩
    | _ =>
      cases h
      exact ⟨rfl, fun n hn => nomatch hn⟩

inductive Received (c : Client) (m : Message) : Except ClientError Reaction × Client → Prop where
  | unsolicited (h : m.opcode? = some Opcode.reply.code → ¬c.Awaits (m.token?.getD 0)) :
      Received c m (Client.unsolicited m, c)
  | ignored {i} (hop : m.opcode? = some Opcode.hello.code)
      (hi : c.transactions.items[i]? = some forGreeting) :
      Received c m (.ok .none, c.settled i 0 c.version)
  | greeted {i chosen result} (hop : m.opcode? = some Opcode.hello.code)
      (hi : c.transactions.items[i]? = some forGreeting)
      (ha : Asks (c.settled i 0 c.version) (.versel chosen) result) : Received c m (writing result)
  | replied {i token opcode error} (version) (hi : c.transactions.items[i]? = some (forReply token))
      (hm : m.decode = .ok (.reply token opcode error)) :
      Received c m (.ok ⟨[], c.conclusion token error⟩, c.settled i token version)

theorem settled_of_absent {i : Nat} (h : c.pending.get? token = none) :
    c.settled i token c.version = { c with transactions := ⟨c.transactions.items.eraseIdx i⟩ } := by
  rw [settled, Table.erase_of_absent h]

theorem finished_finishedBy (c : Client) (t : Transaction Unit Empty) (code : Int32) (m : Message) :
    c.finished (t.finishedBy code m) = match c.pending.get? t.token with
      | none => (.ok .none, c)
      | some what =>
        { c with pending := c.pending.erase t.token }.concluded t.token code what (some m) :=
  rfl

theorem finished_forGreeting {i : Nat} (h0 : ∀ what, c.pending.get? 0 = some what → what = .hello)
    (hop : m.opcode? = some Opcode.hello.code)
    (hi : c.transactions.items[i]? = some forGreeting) :
    Received c m ({ c with transactions := ⟨c.transactions.items.eraseIdx i⟩ }.finished
      (forGreeting.finishedBy 0 m)) := by
  simp only [finished_finishedBy, forGreeting]
  cases hpending : c.pending.get? 0 with
  | none =>
    simp only [← settled_of_absent hpending]
    exact .ignored hop hi
  | some what =>
    obtain rfl := h0 what hpending
    simp only [concluded, Option.map_some]
    split
    · rename_i version minVersion _
      obtain ⟨chosen, result, ha, heq⟩ := greeted_asks (c.settled i 0 c.version) version minVersion
      rw [settled] at heq
      rw [heq]
      exact .greeted hop hi ha
    · exact .ignored hop hi

theorem finished_forReply {i : Nat} {opcode : UInt32} {error : Int32}
    (hi : c.transactions.items[i]? = some (forReply token))
    (hm : m.decode = .ok (.reply token opcode error)) :
    Received c m ({ c with transactions := ⟨c.transactions.items.eraseIdx i⟩ }.finished
      ((forReply token).finishedBy error m)) := by
  have hreplied (version : Option UInt32) := Received.replied version hi hm
  unfold conclusion at hreplied
  simp only [finished_finishedBy, forReply]
  cases hpending : c.pending.get? token with
  | none =>
    rw [hpending] at hreplied
    simp only [← settled_of_absent hpending]
    exact hreplied c.version
  | some what =>
    rw [hpending] at hreplied
    cases what with
    | hello =>
      simp only [concluded, Option.map_some, hm]
      exact hreplied c.version
    | versel version =>
      simp only [concluded]
      by_cases herror : error = 0
      · simp only [Option.map_some, Request.conclusion, if_pos herror] at hreplied
        rw [if_pos herror]
        exact hreplied (some version)
      · simp only [Option.map_some, Request.conclusion, if_neg herror] at hreplied
        rw [if_neg herror]
        exact hreplied c.version
    | register f => exact hreplied c.version
    | unregister f => exact hreplied c.version
    | close => exact hreplied none

theorem receive_of_malformed {fault : Fault} (h : m.check = .error fault) :
    c.receive m = (.error (.malformed fault), c) := by
  rw [receive, h]

theorem received (hc : c.Regular) (h0 : ∀ what, c.pending.get? 0 = some what → what = .hello)
    (hcheck : m.check = .ok ()) : Received c m (c.receive m) := by
  simp only [receive, hcheck, TransactionSet.deliver]
  cases hroute : c.transactions.route? m (m.opcode? == some Opcode.reply.code) with
  | none =>
    refine .unsolicited fun hop => ?_
    rintro ⟨t, ht, hwants⟩
    rw [hop, beq_self_eq_true] at hroute
    exact TransactionSet.route?_eq_none hop hroute ht hwants
  | some target =>
    obtain ⟨i, t⟩ := target
    obtain ⟨hi, opcode, hop, hwants⟩ := TransactionSet.route?_eq_some hroute
    have ht : t ∈ c.transactions.items := List.mem_of_getElem? hi
    rcases hc t ht with rfl | ⟨own, rfl⟩
    · obtain ⟨-, -, hhello⟩ := forGreeting_wants.mp hwants
      exact finished_forGreeting h0 (hhello ▸ hop) hi
    · obtain ⟨hown, -, hreply⟩ := forReply_wants.mp hwants
      obtain ⟨token, opcode', error, hm⟩ := Message.reply_of_opcode hcheck (hreply ▸ hop)
      obtain rfl : own = token := by
        rw [hown, Message.token?_of_decode hm]
        rfl
      simp only [forReply_process hm]
      exact finished_forReply hi hm

end Client

end Arbiter
