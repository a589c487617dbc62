import Arbiter.Proofs.Watch.Reception

/-!
What a watch writes. Whatever it hears, in whatever order, it selects a version at most once,
registers once the selection was accepted, and from then on answers each ask, in order and once;
told to stop at an outcome, it closes at the first of them. An ask that comes too early ends it.
-/

namespace Arbiter

namespace Watch

open Client Transaction

def firstToken (seed : UInt32) : UInt64 := seed.toUInt64 + 1

/-- What was written is what is due after these messages, each kind in turn. -/
structure Written (options : WatchOptions) (token : UInt64)
    (heard versels registers answers closes : List Message) : Prop where
  oneVersel : versels.length ≤ 1
  isVersel : ∀ m ∈ versels, ∃ version, m.decode = .ok (.versel token version)
  oneRegister : registers.length ≤ 1
  isRegister : ∀ m ∈ registers, ∃ own, m.decode = .ok (.register ⟨own, options.filter, none⟩)
  registered : registers ≠ [] ↔ Accepted token heard
  answered : answers.map Message.decode = ((sinceAcceptance token heard).filterMap Message.ask?).map
    fun asked => .ok (.answer asked options.verdict options.delegate)
  oneClose : closes.length ≤ 1
  isClose : ∀ m ∈ closes, ∃ own, m.decode = .ok (.close own)
  closed : closes ≠ [] ↔ options.once = true ∧ heard.any Message.isOutcome = true

/-- What a watch that heard these messages has written and how it ended, if it did. -/
structure Conduct (options : WatchOptions) (token : UInt64) (heard : List Message) (w : Watch) :
    Prop where
  sent : ∃ versels registers answers closes, w.sent = versels ++ registers ++ answers ++ closes ∧
    Written options token heard versels registers answers closes
  /-- Nothing is heard after the first outcome, if the watch was told to stop there. -/
  stops {before m after} : options.once = true → heard = before ++ m :: after →
    m.isOutcome = true → after = [] ∧ w.ended = some .finished
  /-- An ask that comes before the acceptance ends the watch, and nothing is answered. -/
  unready {before m after asked} : heard = before ++ m :: after → m.ask? = some asked →
    ¬Accepted token before → after = [] ∧ w.ended = some (.failed (.client .notConnected)) ∧
      ∀ m ∈ w.sent, m.opcode? ≠ some Opcode.answer.code

variable {options : WatchOptions} {seed : UInt32} {token : UInt64}
  {heard versels registers answers closes before after : List Message} {m m' : Message} {c : Client}
  {w w' : Watch}

namespace Written

theorem fresh : Written options token [] [] [] [] [] where
  oneVersel := Nat.zero_le 1
  isVersel _ h := nomatch h
  oneRegister := Nat.zero_le 1
  isRegister _ h := nomatch h
  registered := by simp [Accepted, following]
  answered := rfl
  oneClose := Nat.zero_le 1
  isClose _ h := nomatch h
  closed := by simp

theorem unstopped (h : Written options token heard versels registers answers [])
    (honce : options.once = true) : heard.any Message.isOutcome = false := by
  cases hany : heard.any Message.isOutcome with
  | false => rfl
  | true => exact absurd rfl (h.closed.mpr ⟨honce, hany⟩)

theorem unready (h : Written options token heard versels registers answers closes)
    (hnot : ¬Accepted token heard) : registers = [] ∧ answers = [] := by
  constructor
  · by_contra hne
    exact hnot (h.registered.mp hne)
  · have hanswers := h.answered
    rw [sinceAcceptance_of_not hnot] at hanswers
    exact List.map_eq_nil_iff.mp hanswers

theorem closed_snoc (h : Written options token heard versels registers answers [])
    (houtcome : options.once = true → m.isOutcome = false) :
    ([] : List Message) ≠ [] ↔
      options.once = true ∧ (heard ++ [m]).any Message.isOutcome = true := by
  refine ⟨fun hne => absurd rfl hne, ?_⟩
  rintro ⟨honce, hany⟩
  simp [h.unstopped honce, houtcome honce] at hany

theorem answered_snoc (h : Written options token heard versels registers answers closes)
    (hask : Accepted token heard → m.ask? = none) : answers.map Message.decode =
      ((sinceAcceptance token (heard ++ [m])).filterMap Message.ask?).map
        fun asked => .ok (.answer asked options.verdict options.delegate) := by
  rw [h.answered]
  by_cases hserves : Accepted token heard
  · rw [sinceAcceptance_snoc hserves, List.filterMap_append]
    simp [hask hserves]
  · rw [sinceAcceptance_snoc_of_not hserves, sinceAcceptance_of_not hserves]

theorem snoc (h : Written options token heard versels registers answers [])
    (haccepted : Accepted token (heard ++ [m]) ↔ Accepted token heard)
    (hask : Accepted token heard → m.ask? = none)
    (houtcome : options.once = true → m.isOutcome = false) :
    Written options token (heard ++ [m]) versels registers answers [] where
  __ := h
  registered := h.registered.trans haccepted.symm
  answered := h.answered_snoc hask
  closed := h.closed_snoc houtcome

theorem select (h : Written options token heard [] registers answers []) {version : UInt32}
    (hm : m.decode = .ok (.versel token version)) :
    Written options token heard [m] registers answers [] where
  __ := h
  oneVersel := Nat.le_refl 1
  isVersel _ hmem := List.mem_singleton.mp hmem ▸ ⟨version, hm⟩

theorem accept (h : Written options token heard versels [] [] [])
    (hnot : ¬Accepted token heard) (haccepted : Accepted token (heard ++ [m]))
    (houtcome : m.isOutcome = false) {own : UInt64}
    (hm' : m'.decode = .ok (.register ⟨own, options.filter, none⟩)) :
    Written options token (heard ++ [m]) versels [m'] [] [] where
  __ := h
  oneRegister := Nat.le_refl 1
  isRegister _ hmem := List.mem_singleton.mp hmem ▸ ⟨own, hm'⟩
  registered := iff_of_true (List.cons_ne_nil _ _) haccepted
  answered := by
    rw [sinceAcceptance_snoc_of_not hnot]
    rfl
  closed := h.closed_snoc fun _ => houtcome

theorem answer (h : Written options token heard versels registers answers [])
    (haccepted : Accepted token heard) {asked : UInt64} (hask : m.ask? = some asked)
    (houtcome : m.isOutcome = false)
    (hm' : m'.decode = .ok (.answer asked options.verdict options.delegate)) :
    Written options token (heard ++ [m]) versels registers (answers ++ [m']) [] where
  __ := h
  registered := h.registered.trans (iff_of_true haccepted (accepted_snoc.mpr (.inl haccepted)))
  answered := by
    rw [sinceAcceptance_snoc haccepted, List.map_append, h.answered, List.filterMap_append,
      List.map_append]
    simp [hask, hm']
  closed := h.closed_snoc fun _ => houtcome

theorem close (h : Written options token heard versels registers answers [])
    (haccepted : Accepted token (heard ++ [m]) ↔ Accepted token heard) (hask : m.ask? = none)
    (honce : options.once = true) (houtcome : m.isOutcome = true) {own : UInt64}
    (hm' : m'.decode = .ok (.close own)) :
    Written options token (heard ++ [m]) versels registers answers [m'] where
  __ := h
  registered := h.registered.trans haccepted.symm
  answered := h.answered_snoc fun _ => hask
  oneClose := Nat.le_refl 1
  isClose _ hmem := List.mem_singleton.mp hmem ▸ ⟨own, hm'⟩
  closed := iff_of_true (List.cons_ne_nil _ _) ⟨honce, by simp [houtcome]⟩

theorem unanswered (h : Written options token heard versels registers answers closes)
    (hnot : ¬Accepted token heard) :
    ∀ m ∈ versels ++ registers ++ answers ++ closes, m.opcode? ≠ some Opcode.answer.code := by
  obtain ⟨-, rfl⟩ := h.unready hnot
  have hother {m : Message} {content : Content} (hm : m.decode = .ok content)
      (hne : content.opcode ≠ .answer) : m.opcode? ≠ some Opcode.answer.code := fun hop =>
    hne (Opcode.code_inj.mp (Option.some.inj ((Message.opcode?_of_decode hm).symm.trans hop)))
  simp only [List.append_nil, List.mem_append]
  rintro m ((hm | hm) | hm)
  · obtain ⟨version, hversel⟩ := h.isVersel m hm
    exact hother hversel Opcode.noConfusion
  · obtain ⟨own, hregister⟩ := h.isRegister m hm
    exact hother hregister Opcode.noConfusion
  · obtain ⟨own, hclose⟩ := h.isClose m hm
    exact hother hclose Opcode.noConfusion

end Written

inductive Phase (seed : UInt32) (heard versels : List Message) : Client → Prop where
  | waiting (hgreeting : heard.any Message.isGreeting = false) (hversels : versels = []) :
      Phase seed heard versels (Client.fresh seed)
  | selecting {c : Client} {version : UInt32} (hgreeting : heard.any Message.isGreeting = true)
      (hnot : ¬Accepted (firstToken seed) heard)
      (hitems : c.transactions.items = [forReply (firstToken seed)])
      (hpending : c.pending.get? (firstToken seed) = some (.versel version))
      (hversion : c.version = none) : Phase seed heard versels c
  | serving {c : Client} (haccepted : Accepted (firstToken seed) heard) (hc : c.Serves) :
      Phase seed heard versels c

structure Live (options : WatchOptions) (seed : UInt32) (heard : List Message) (w : Watch) :
    Prop where
  ended : w.ended = none
  told : w.options = options
  sent : ∃ versels registers answers, w.sent = versels ++ registers ++ answers ∧
    Written options (firstToken seed) heard versels registers answers [] ∧
    Phase seed heard versels w.client
  timely {before : List Message} {m : Message} {after : List Message} {asked : UInt64} :
    heard = before ++ m :: after → m.ask? = some asked → Accepted (firstToken seed) before

inductive Course (options : WatchOptions) (seed : UInt32) (heard : List Message) (w : Watch) :
    Prop where
  | live (h : Live options seed heard w)
  | past {ending} (hended : w.ended = some ending)
      (h : Conduct options (firstToken seed) heard w)

theorem snoc_eq_append_cons (h : heard ++ [m'] = before ++ m :: after) :
    (before = heard ∧ m = m' ∧ after = []) ∨ ∃ rest, heard = before ++ m :: rest := by
  rcases List.eq_nil_or_concat after with rfl | ⟨rest, last, rfl⟩
  · obtain ⟨rfl, heq⟩ := List.append_inj' h rfl
    exact .inl ⟨rfl, (List.cons.inj heq).1.symm, rfl⟩
  · rw [List.concat_eq_append, ← List.cons_append, ← List.append_assoc] at h
    exact .inr ⟨rest, (List.append_inj' h rfl).1⟩

theorem any_of_split {kind : Message → Bool} (h : heard = before ++ m :: after)
    (hm : kind m = true) : heard.any kind = true := by
  rw [h]
  simp [hm]

namespace Live

theorem timely_snoc (h : Live options seed heard w)
    (hm : ∀ asked, m.ask? = some asked → Accepted (firstToken seed) heard)
    {m' : Message} {asked : UInt64}
    (hsplit : heard ++ [m] = before ++ m' :: after) (hask : m'.ask? = some asked) :
    Accepted (firstToken seed) before := by
  rcases snoc_eq_append_cons hsplit with ⟨rfl, rfl, -⟩ | ⟨rest, hheard⟩
  · exact hm asked hask
  · exact h.timely hheard hask

theorem timely_snoc_of_none (h : Live options seed heard w) (hm : m.ask? = none)
    {m' : Message} {asked : UInt64}
    (hsplit : heard ++ [m] = before ++ m' :: after) (hask : m'.ask? = some asked) :
    Accepted (firstToken seed) before :=
  h.timely_snoc (fun _ hasked => nomatch hm.symm.trans hasked) hsplit hask

theorem past (h : Live options seed heard w) {ending : WatchEnd}
    (hended : w'.ended = some ending) (hsent : ∃ versels registers answers closes,
      w'.sent = versels ++ registers ++ answers ++ closes ∧
      Written options (firstToken seed) (heard ++ [m]) versels registers answers closes)
    (hstops : options.once = true → m.isOutcome = true → ending = .finished)
    (hunready : ∀ asked, m.ask? = some asked → ¬Accepted (firstToken seed) heard →
      ending = .failed (.client .notConnected)) :
    Course options seed (heard ++ [m]) w' := by
  refine .past hended ⟨hsent, fun honce hsplit houtcome => ?_, fun hsplit hask hnot => ?_⟩
  · rcases snoc_eq_append_cons hsplit with ⟨rfl, rfl, rfl⟩ | ⟨rest, hheard⟩
    · exact ⟨rfl, hstops honce houtcome ▸ hended⟩
    · obtain ⟨versels, registers, answers, -, hwritten, -⟩ := h.sent
      have hany := any_of_split hheard houtcome
      exact absurd (hwritten.unstopped honce) (by simp [hany])
  · rcases snoc_eq_append_cons hsplit with ⟨rfl, rfl, rfl⟩ | ⟨rest, hheard⟩
    · obtain ⟨versels, registers, answers, closes, heq, hwritten⟩ := hsent
      refine ⟨rfl, hunready _ hask hnot ▸ hended, heq ▸ hwritten.unanswered ?_⟩
      exact mt (accepted_snoc_of_not (Message.accepts_of_ask hask _)).mp hnot
    · exact absurd (h.timely hheard hask) hnot

theorem conduct (h : Live options seed heard w) (hsent : w'.sent = w.sent) :
    Conduct options (firstToken seed) heard w' := by
  obtain ⟨versels, registers, answers, heq, hwritten, -⟩ := h.sent
  refine ⟨⟨versels, registers, answers, [], ?_, hwritten⟩, fun honce hheard houtcome => ?_,
    fun hheard hask hnot => ?_⟩
  · rw [hsent, heq, List.append_nil]
  · have hany := any_of_split hheard houtcome
    exact absurd (hwritten.unstopped honce) (by simp [hany])
  · exact absurd (h.timely hheard hask) hnot

end Live

theorem Phase.keep (h : Phase seed heard versels c)
    (hgreeting : heard.any Message.isGreeting = false → m.isGreeting = false)
    (haccepted : Accepted (firstToken seed) (heard ++ [m]) ↔ Accepted (firstToken seed) heard) :
    Phase seed (heard ++ [m]) versels c := by
  cases h with
  | waiting hwaits hversels =>
    refine .waiting ?_ hversels
    rw [List.any_append, hwaits, Bool.false_or, List.any_cons, hgreeting hwaits]
    rfl
  | selecting hgreeted hnot hitems hpending hversion =>
    refine .selecting ?_ (mt haccepted.mp hnot) hitems hpending hversion
    rw [List.any_append, hgreeted, Bool.true_or]
  | serving hserves hc => exact .serving (haccepted.mpr hserves) hc

namespace Live

theorem keep (h : Live options seed heard w) (hended : w'.ended = none)
    (htold : w'.options = w.options) (hsent : w'.sent = w.sent) (hclient : w'.client = w.client)
    (hgreeting : heard.any Message.isGreeting = false → m.isGreeting = false)
    (haccepted : Accepted (firstToken seed) (heard ++ [m]) ↔ Accepted (firstToken seed) heard)
    (hask : m.ask? = none) (houtcome : options.once = true → m.isOutcome = false) :
    Live options seed (heard ++ [m]) w' := by
  obtain ⟨versels, registers, answers, heq, hwritten, hphase⟩ := h.sent
  refine ⟨hended, htold.trans h.told, ⟨versels, registers, answers, hsent.trans heq,
    hwritten.snoc haccepted (fun _ => hask) houtcome, hclient ▸ hphase.keep hgreeting haccepted⟩,
    h.timely_snoc_of_none hask⟩

theorem fails (h : Live options seed heard w) {e : WatchError} (hsent : w'.sent = w.sent)
    (haccepted : Accepted (firstToken seed) (heard ++ [m]) ↔ Accepted (firstToken seed) heard)
    (hask : m.ask? = none) (houtcome : m.isOutcome = false) :
    Course options seed (heard ++ [m]) (w'.fail e) := by
  obtain ⟨versels, registers, answers, heq, hwritten, -⟩ := h.sent
  refine h.past rfl ⟨versels, registers, answers, [], ?_, hwritten.snoc haccepted (fun _ => hask)
    fun _ => houtcome⟩ (fun _ hm => ?_) (fun asked hasked => ?_)
  · rw [List.append_nil]
    exact hsent.trans heq
  · cases houtcome.symm.trans hm
  · cases hask.symm.trans hasked

theorem malformed (h : Live options seed heard w) {fault : Fault}
    (hcheck : m.check = .error fault) : Course options seed (heard ++ [m]) (w.receive m) := by
  have hsaid := Message.said?_of_malformed hcheck
  have hask : m.ask? = none := by rw [Message.ask?, hsaid]
  have houtcome : m.isOutcome = false := by rw [Message.isOutcome, hsaid]
  rw [receive_of_error h.ended (receive_of_malformed hcheck)]
  exact h.fails rfl (accepted_snoc_of_not (by rw [Message.accepts, hsaid])) hask houtcome

theorem asked (h : Live options seed heard w) {e : Event} (hneeds : e.needsVerdict = true)
    (hsaid : m.said? = some (.event e)) :
    Course options seed (heard ++ [m]) (w.note (.event e)) := by
  have houtcome : m.isOutcome = false := by rw [Message.isOutcome, hsaid]
  have hask : m.ask? = some e.token := by rw [Message.ask?_of_event hsaid, if_pos hneeds]
  have haccepted : Accepted (firstToken seed) (heard ++ [m]) ↔ Accepted (firstToken seed) heard :=
    accepted_snoc_of_not (Message.accepts_of_ask hask _)
  obtain ⟨versels, registers, answers, heq, hwritten, hphase⟩ := h.sent
  have hunready (hnot : ¬Accepted (firstToken seed) heard) (hversion : w.client.version = none) :
      Course options seed (heard ++ [m]) (w.note (.event e)) := by
    have hfails : w.note (.event e) = w.fail (.client .notConnected) := by
      rw [note, if_pos hneeds, answer_of_unready hversion]
      rfl
    rw [hfails]
    refine h.past rfl ⟨versels, registers, answers, [], ?_, hwritten.snoc haccepted
      (fun hserves => absurd hserves hnot) fun _ => houtcome⟩ (fun _ hm => ?_) (fun _ _ _ => rfl)
    · rw [List.append_nil]
      exact heq
    · cases houtcome.symm.trans hm
  generalize hclient : w.client = c at hphase hunready
  cases hphase with
  | waiting hwaits =>
    exact hunready (not_accepted hwaits) rfl
  | selecting _ hnot _ _ hversion => exact hunready hnot hversion
  | serving hserves hc =>
    obtain ⟨answer, hanswer, hdecode⟩ :=
      exists_answer hc.connected e.token w.options.verdict w.options.delegate
    have hnote : w.note (.event e) = { w with sent := w.sent ++ [answer] } := by
      rw [note, if_pos hneeds, hclient, hanswer, ← hclient]
      rfl
    rw [hnote]
    rw [h.told] at hdecode
    refine .live ⟨h.ended, h.told, ⟨versels, registers, answers ++ [answer], ?_,
      hwritten.answer hserves hask houtcome hdecode, ?_⟩, h.timely_snoc fun _ _ => hserves⟩
    · rw [heq, List.append_assoc]
    · exact hclient ▸ .serving (haccepted.mpr hserves) hc

theorem decided (h : Live options seed heard w) {asked : UInt64} {you : Bool} {uid : UInt32}
    {verdict : Verdict} (hsaid : m.said? = some (.outcome asked you uid verdict)) :
    Course options seed (heard ++ [m]) (w.note (.outcome asked you uid verdict)) := by
  have hgreeting : m.isGreeting = false := by rw [Message.isGreeting, hsaid]
  have houtcome : m.isOutcome = true := by rw [Message.isOutcome, hsaid]
  have hask : m.ask? = none := by rw [Message.ask?, hsaid]
  have haccepted : Accepted (firstToken seed) (heard ++ [m]) ↔ Accepted (firstToken seed) heard :=
    accepted_snoc_of_not (by rw [Message.accepts, hsaid])
  by_cases honce : options.once = true
  · obtain ⟨versels, registers, answers, heq, hwritten, -⟩ := h.sent
    obtain ⟨closing, own, hdecode, hsent, hended⟩ :=
      (w.print asked you uid verdict).close_eq h.ended
    have hnote : w.note (.outcome asked you uid verdict) =
        (w.print asked you uid verdict).close := by
      rw [note]
      exact if_pos (h.told ▸ honce)
    rw [hnote]
    refine h.past hended ⟨versels, registers, answers, [closing], ?_,
      hwritten.close haccepted hask honce houtcome hdecode⟩ (fun _ _ => rfl) fun _ hasked => ?_
    · rw [hsent, ← heq]
      rfl
    · cases hask.symm.trans hasked
  · have hnote : w.note (.outcome asked you uid verdict) = w.print asked you uid verdict := by
      rw [note]
      exact if_neg (h.told ▸ honce)
    rw [hnote]
    exact .live (h.keep h.ended rfl rfl rfl (fun _ => hgreeting) haccepted hask
      fun hon => absurd hon honce)

theorem unsolicited (h : Live options seed heard w) {content : Content}
    (hcheck : m.check = .ok ()) (hm : m.decode = .ok content)
    (hreceive : w.client.receive m = (Client.unsolicited m, w.client))
    (hgreeting : heard.any Message.isGreeting = false → m.isGreeting = false)
    (haccepted : Accepted (firstToken seed) (heard ++ [m]) ↔ Accepted (firstToken seed) heard) :
    Course options seed (heard ++ [m]) (w.receive m) := by
  have hsaid := Message.said?_of_decode hcheck hm
  have hquiet (hask : m.ask? = none) (houtcome : m.isOutcome = false) :
      Course options seed (heard ++ [m]) w :=
    .live (h.keep h.ended rfl rfl rfl hgreeting haccepted hask fun _ => houtcome)
  rw [receive_unsolicited h.ended hm hreceive]
  cases content with
  | event e =>
    cases hneeds : e.needsVerdict with
    | true => exact h.asked hneeds hsaid
    | false =>
      rw [note, hneeds]
      refine hquiet ?_ (by rw [Message.isOutcome, hsaid])
      rw [Message.ask?_of_event hsaid, hneeds]
      rfl
  | outcome asked you uid verdict => exact h.decided hsaid
  | _ => exact hquiet (by rw [Message.ask?, hsaid]) (by rw [Message.isOutcome, hsaid])

theorem greeted (h : Live options seed heard w) (hclient : w.client = Client.fresh seed)
    (hwaits : heard.any Message.isGreeting = false) {g : Greeting} (hm : m.greeting? = some g)
    (hsent : w.sent = []) (hwritten : Written options (firstToken seed) heard [] [] [] []) :
    Course options seed (heard ++ [m]) (w.receive m) := by
  obtain ⟨hcheck, hdecode⟩ := Message.greeting?_eq_some.mp hm
  have hsaid := Message.said?_of_decode hcheck hdecode
  have hgreeting : m.isGreeting = true := by rw [Message.isGreeting, hsaid]
  have houtcome : m.isOutcome = false := by rw [Message.isOutcome, hsaid]
  have hask : m.ask? = none := by rw [Message.ask?, hsaid]
  have haccepted : Accepted (firstToken seed) (heard ++ [m]) ↔ Accepted (firstToken seed) heard :=
    accepted_snoc_of_not (by rw [Message.accepts, hsaid])
  obtain ⟨i, hi, hreceive⟩ := (poised_fresh seed).receive_greeting
    (List.mem_singleton_self forGreeting) rfl hm
  obtain rfl : i = 0 := by
    obtain ⟨hlt, -⟩ := List.getElem?_eq_some_iff.mp hi
    exact Nat.lt_one_iff.mp hlt
  rw [← hclient] at hreceive
  rcases greeted_cases (w.client.settled 0 0 w.client.version) g with ⟨-, hgreeted⟩ |
    ⟨version, versel, -, hversel, hgreeted⟩
  · rw [receive_of_error h.ended (hreceive.trans hgreeted)]
    exact h.fails rfl haccepted hask houtcome
  · rw [receive_of_ok h.ended (hreceive.trans hgreeted), List.foldl_nil]
    have htoken : (w.client.settled 0 0 w.client.version).nextToken = firstToken seed := by
      rw [hclient]
      rfl
    have hidle : (w.client.settled 0 0 w.client.version).transactions.items = [] := by
      rw [hclient]
      rfl
    obtain ⟨hitems, hpending⟩ := asked_of_idle hidle (.versel version)
    rw [htoken] at hitems hpending hversel
    have hselected := (hwritten.select (Message.decode_versel hversel)).snoc haccepted
      (fun _ => hask) fun _ => houtcome
    refine .live ⟨h.ended, h.told, ⟨[versel], [], [], congrArg (· ++ [versel]) hsent, hselected,
      ?_⟩, h.timely_snoc_of_none hask⟩
    refine .selecting ?_ (mt haccepted.mp (not_accepted hwaits)) hitems hpending ?_
    · simp [hgreeting]
    · exact congrArg Client.version hclient

theorem selected (h : Live options seed heard w)
    (hgreeted : heard.any Message.isGreeting = true) (hnot : ¬Accepted (firstToken seed) heard)
    (hitems : w.client.transactions.items = [forReply (firstToken seed)]) {version : UInt32}
    (hpending : w.client.pending.get? (firstToken seed) = some (.versel version))
    {opcode : UInt32} {error : Int32} (hcheck : m.check = .ok ())
    (hm : m.decode = .ok (.reply (firstToken seed) opcode error)) :
    Course options seed (heard ++ [m]) (w.receive m) := by
  have hsaid := Message.said?_of_decode hcheck hm
  have houtcome : m.isOutcome = false := by rw [Message.isOutcome, hsaid]
  have hask : m.ask? = none := by rw [Message.ask?, hsaid]
  have hreceive := receive_replied hitems hpending hcheck hm
  simp only [concluded] at hreceive
  by_cases herror : error = 0
  · rw [if_pos herror] at hreceive
    have haccepted : Accepted (firstToken seed) (heard ++ [m]) := by
      refine accepted_snoc.mpr (.inr ⟨hgreeted, ?_⟩)
      simp [Message.accepts, hsaid, herror]
    obtain ⟨versels, registers, answers, heq, hwritten, -⟩ := h.sent
    obtain ⟨rfl, rfl⟩ := hwritten.unready hnot
    generalize hc : { w.client.settled 0 (firstToken seed) w.client.version with
      version := some version } = c at hreceive
    have hended : { w with client := c }.ended = none := h.ended
    rw [receive_notice h.ended hreceive, heed_of_live hended]
    have hidle : c.transactions.items = [] := by
      rw [← hc, Client.settled, hitems]
      rfl
    have hversion : c.version = some version := by rw [← hc]
    obtain ⟨register, hregister, hdecode⟩ :=
      exists_register (hversion ▸ Option.isSome_some) options.filter
    rw [← h.told] at hregister
    simp only [hregister, write]
    refine .live ⟨h.ended, h.told, ⟨versels, [register], [], ?_,
      hwritten.accept hnot haccepted houtcome hdecode, .serving haccepted ⟨?_, ?_⟩⟩,
      h.timely_snoc_of_none hask⟩
    · rw [heq]
      simp
    · exact hversion ▸ Option.isSome_some
    · exact .inr ⟨_, _, asked_of_idle hidle _⟩
  · rw [if_neg herror] at hreceive
    have hended : { w with
      client := w.client.settled 0 (firstToken seed) w.client.version }.ended = none := h.ended
    rw [receive_notice h.ended hreceive, heed_of_live hended]
    refine h.fails rfl (accepted_snoc_of_not ?_) hask houtcome
    simp [Message.accepts, hsaid, herror]

theorem registered (h : Live options seed heard w)
    (hserves : Accepted (firstToken seed) heard) (hversion : w.client.version.isSome)
    {token : UInt64} (hitems : w.client.transactions.items = [forReply token]) {f : Filter}
    (hpending : w.client.pending.get? token = some (.register f))
    {opcode : UInt32} {error : Int32} (hcheck : m.check = .ok ())
    (hm : m.decode = .ok (.reply token opcode error)) :
    Course options seed (heard ++ [m]) (w.receive m) := by
  have hsaid := Message.said?_of_decode hcheck hm
  have houtcome : m.isOutcome = false := by rw [Message.isOutcome, hsaid]
  have hask : m.ask? = none := by rw [Message.ask?, hsaid]
  have haccepted : Accepted (firstToken seed) (heard ++ [m]) ↔ Accepted (firstToken seed) heard :=
    iff_of_true (accepted_snoc.mpr (.inl hserves)) hserves
  have hreceive := receive_replied hitems hpending hcheck hm
  simp only [concluded] at hreceive
  have hended : { w with client := w.client.settled 0 token w.client.version }.ended = none :=
    h.ended
  rw [receive_notice h.ended hreceive, heed_of_live hended]
  by_cases herror : error = 0
  · rw [if_pos herror]
    obtain ⟨versels, registers, answers, heq, hwritten, -⟩ := h.sent
    refine .live ⟨h.ended, h.told, ⟨versels, registers, answers, heq,
      hwritten.snoc haccepted (fun _ => hask) fun _ => houtcome,
      .serving (haccepted.mpr hserves) ⟨hversion, .inl ?_⟩⟩, h.timely_snoc_of_none hask⟩
    show (w.client.settled 0 token w.client.version).transactions.items = []
    rw [Client.settled, hitems]
    rfl
  · rw [if_neg herror]
    exact h.fails rfl haccepted hask houtcome

theorem receive (h : Live options seed heard w) (m : Message) :
    Course options seed (heard ++ [m]) (w.receive m) := by
  cases hcheck : m.check with
  | error fault => exact h.malformed hcheck
  | ok =>
    obtain ⟨content, hdecode, -⟩ := Message.exists_decode hcheck
    have hsaid := Message.said?_of_decode hcheck hdecode
    obtain ⟨versels, registers, answers, heq, hwritten, hphase⟩ := h.sent
    generalize hclient : w.client = c at hphase
    cases hphase with
    | waiting hwaits hversels =>
      obtain ⟨rfl, rfl⟩ := hwritten.unready (not_accepted hwaits)
      subst hversels
      cases hgreeting : m.isGreeting with
      | true =>
        obtain ⟨g, hg⟩ := Message.isGreeting_iff.mp hgreeting
        exact h.greeted hclient hwaits hg heq hwritten
      | false =>
        have hitems : w.client.transactions.items = [forGreeting] := by
          rw [hclient]
          rfl
        refine h.unsolicited hcheck hdecode (receive_ungreeted hitems hcheck hgreeting)
          (fun _ => hgreeting) ?_
        simp [accepted_snoc, hwaits]
    | selecting hgreeted hnot hitems hpending =>
      by_cases hreply : ∃ opcode error,
          m.decode = .ok (.reply (firstToken seed) opcode error)
      · obtain ⟨opcode, error, hm⟩ := hreply
        exact h.selected hgreeted hnot (hclient ▸ hitems) (hclient ▸ hpending) hcheck hm
      · have hother (opcode : UInt32) (error : Int32) :
            m.decode ≠ .ok (.reply (firstToken seed) opcode error) :=
          fun hm => hreply ⟨opcode, error, hm⟩
        refine h.unsolicited hcheck hdecode
          (receive_unreplied (hclient ▸ hitems) hcheck hother)
          (fun hwaits => absurd hgreeted (by simp [hwaits])) (accepted_snoc_of_not ?_)
        rw [Message.accepts, hsaid]
        cases content with
        | reply token opcode error =>
          have hne : token ≠ firstToken seed := by
            rintro rfl
            exact hother opcode error hdecode
          simp [hne]
        | _ => rfl
    | serving hserves hc =>
      have haccepted : Accepted (firstToken seed) (heard ++ [m]) ↔
          Accepted (firstToken seed) heard :=
        iff_of_true (accepted_snoc.mpr (.inl hserves)) hserves
      have hgreeting : heard.any Message.isGreeting = false → m.isGreeting = false :=
        fun hwaits => absurd hserves (not_accepted hwaits)
      obtain ⟨hversion, hitems | ⟨token, f, hitems, hpending⟩⟩ := hclient ▸ hc
      · exact h.unsolicited hcheck hdecode (receive_idle hitems hcheck) hgreeting haccepted
      · by_cases hreply : ∃ opcode error, m.decode = .ok (.reply token opcode error)
        · obtain ⟨opcode, error, hm⟩ := hreply
          exact h.registered hserves hversion hitems hpending hcheck hm
        · refine h.unsolicited hcheck hdecode (receive_unreplied hitems hcheck ?_) hgreeting
            haccepted
          exact fun opcode error hm => hreply ⟨opcode, error, hm⟩

end Live

theorem Course.conduct (h : Course options seed heard w) :
    Conduct options (firstToken seed) heard w := by
  cases h with
  | live h => exact h.conduct rfl
  | past _ h => exact h

theorem Course.ends (h : Course options seed heard w) (ending : Frame.Ending) :
    Course options seed heard (w.endWith ending) := by
  cases h with
  | live h =>
    obtain ⟨hended, hsent⟩ := w.endWith_ends ending
    obtain ⟨cause, hcause⟩ := Option.isSome_iff_exists.mp hended
    exact .past hcause (h.conduct hsent)
  | past hended h =>
    rw [endWith_of_ended hended]
    exact .past hended h

theorem live_new (options : WatchOptions) (seed : UInt32) :
    Live options seed [] (.new options (firstToken seed)) :=
  ⟨rfl, rfl, ⟨[], [], [], rfl, .fresh, .waiting rfl rfl⟩, fun h => by simp at h⟩

theorem course_after (options : WatchOptions) (seed : UInt32) (ms : List Message) :
    Course options seed ((Watch.new options (firstToken seed)).heard ms)
      ((Watch.new options (firstToken seed)).after ms) := by
  induction ms using List.reverseRecOn with
  | nil => exact .live (live_new options seed)
  | append_singleton ms m ih =>
    rw [after_snoc]
    cases ih with
    | live h =>
      rw [heard_snoc h.ended]
      exact h.receive m
    | past hended h =>
      rw [heard_snoc_of_ended hended, receive_of_ended hended]
      exact .past hended h

theorem Course.unread (h : Course options seed heard w) (left : Bytes) :
    Course options seed heard { w with unread := left } := by
  cases h with
  | live h => exact .live ⟨h.ended, h.told, h.sent, h.timely⟩
  | past hended h => exact .past hended ⟨h.sent, h.stops, h.unready⟩

theorem read_fresh (hunread : w.unread = []) (stream : Bytes) :
    ∃ w', (w.read stream = w' ∨ ∃ ending, w.read stream = w'.endWith ending) ∧
      w' = { w.after (Frame.split Message.maxSize stream).1 with
        unread := (Frame.split Message.maxSize stream).2 } := by
  refine ⟨_, ?_, rfl⟩
  rw [← after_unread]
  simp only [read, hunread, List.nil_append]
  split
  · exact .inr ⟨_, rfl⟩
  · exact .inl rfl

/-- So it is at the end of the stream, however it ends, and after each message before. -/
theorem conduct_run (options : WatchOptions) (seed : UInt32) (stream : Bytes) :
    Conduct options (firstToken seed)
        ((Watch.new options (firstToken seed)).heard (Frame.split Message.maxSize stream).1)
        (Watch.run options (firstToken seed) stream) ∧
      ∀ front, front <+: (Frame.split Message.maxSize stream).1 →
        Conduct options (firstToken seed) ((Watch.new options (firstToken seed)).heard front)
          ((Watch.new options (firstToken seed)).after front) := by
  refine ⟨Course.conduct (Course.ends ?_ _),
    fun front _ => (course_after options seed front).conduct⟩
  have hafter := (course_after options seed (Frame.split Message.maxSize stream).1).unread
    (Frame.split Message.maxSize stream).2
  obtain ⟨w', hread, hw'⟩ := read_fresh (w := Watch.new options (firstToken seed)) rfl stream
  rw [← hw'] at hafter
  rcases hread with hread | ⟨ending, hread⟩
  · rw [hread]
    exact hafter
  · rw [hread]
    exact hafter.ends ending

end Watch

end Arbiter
