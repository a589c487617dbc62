import Mathlib.Algebra.GroupWithZero.Nat
import Arbiter.Command
import Arbiter.Proofs.Capture.Lines
import Arbiter.Proofs.Message.Headers

/-!
Captures as they are walked. Whatever the bytes, the walk cuts them into pieces that lie one behind
the other and leave nothing out, and only what stands last can be something other than a message.
The check of a capture succeeds when it is made of messages that pass theirs, and of nothing else.
-/

namespace Arbiter.Capture

open Message (minSize maxSize)

def Item.bytes : Item → Bytes
  | .message m => m.toBytes
  | .remainder bytes _ => bytes

/-- Messages one behind the other and, where none can be cut out of what follows, all of that as one
remainder. -/
inductive Cuts : Bytes → List Item → Prop where
  | nil : Cuts [] []
  | remainder {bytes flaw} (hne : bytes ≠ []) (h : messageAt bytes = .error flaw) :
      Cuts bytes [.remainder bytes flaw]
  | message {m rest items} (h : messageAt (m.toBytes ++ rest) = .ok (m, rest))
      (hrest : Cuts rest items) : Cuts (m.toBytes ++ rest) (.message m :: items)

variable {bytes rest : Bytes} {m : Message} {items : List Item} {offset : Nat}

theorem messageAt_of_length (h : 4 ≤ bytes.length) : messageAt bytes =
    let size := BigEndian.decode (bytes.take 4)
    if size < minSize ∨ maxSize < size then .error (.badLength size)
    else if (bytes.take size).length = size then .ok (.ofBytes (bytes.take size), bytes.drop size)
    else .error (.overrun size bytes.length) := by
  obtain ⟨a, b, c, d, tail, rfl⟩ : ∃ a b c d tail, bytes = a :: b :: c :: d :: tail := by
    match bytes, h with
    | a :: b :: c :: d :: tail, _ => exact ⟨a, b, c, d, tail, rfl⟩
  simp only [messageAt, List.splitAt_eq]
  rfl

theorem messageAt_of_short (h : bytes.length < 4) : messageAt bytes = .error .truncatedLength := by
  unfold messageAt
  split
  · simp only [List.length_cons] at h
    omega
  · rfl

theorem messageAt_eq_ok : messageAt bytes = .ok (m, rest) ↔
    bytes = m.toBytes ++ rest ∧ minSize ≤ m.size ∧ m.size ≤ maxSize ∧
      BigEndian.decode (m.toBytes.take 4) = m.size := by
  have hmin : minSize = 12 := rfl
  constructor
  · intro h
    by_cases hlength : 4 ≤ bytes.length
    · rw [messageAt_of_length hlength] at h
      generalize hsize : BigEndian.decode (bytes.take 4) = size at h
      dsimp only at h
      split at h
      · cases h
      · split at h
        · rename_i hrange hfront
          obtain ⟨rfl, rfl⟩ : .ofBytes (bytes.take size) = m ∧ bytes.drop size = rest := by
            simpa using h
          have hm : (Message.ofBytes (bytes.take size)).size = size := hfront
          rw [hm]
          refine ⟨(List.take_append_drop ..).symm, by omega, by omega, ?_⟩
          have hinit : (Message.ofBytes (bytes.take size)).toBytes.take 4 = bytes.take 4 := by
            have hfour : min 4 size = 4 := by omega
            simp [Message.toBytes, Message.ofBytes, List.take_take, hfour]
          rw [hinit, hsize]
        · cases h
    · rw [messageAt_of_short (Nat.not_le.mp hlength)] at h
      cases h
  · rintro ⟨rfl, hsize, hmax, hdeclared⟩
    have hlength := Message.size_eq_length m
    have hfour : (m.toBytes ++ rest).take 4 = m.toBytes.take 4 :=
      List.take_append_of_le_length (by omega)
    have hfront : (m.toBytes ++ rest).take m.size = m.toBytes := hlength ▸ List.take_left
    have hback : (m.toBytes ++ rest).drop m.size = rest := hlength ▸ List.drop_left
    have hrange : ¬(m.size < minSize ∨ maxSize < m.size) := by omega
    rw [messageAt_of_length (by rw [List.length_append]; omega), hfour, hdeclared]
    simp only [if_neg hrange, hfront, hback, if_pos hlength.symm]
    rfl

theorem messageAt_toBytes (h : m.verify = .ok ()) (rest : Bytes) :
    messageAt (m.toBytes ++ rest) = .ok (m, rest) := by
  obtain ⟨hmin, hmax, hholds, -⟩ := Message.verify_eq_ok.mp h
  refine messageAt_eq_ok.mpr ⟨rfl, hmin, hmax, ?_⟩
  have hslice := hholds.slice_eq
  rw [BigEndian.length_encode, Message.slice_eq, List.drop_zero] at hslice
  have hlt : m.size < BigEndian.capacity 4 := Nat.lt_of_le_of_lt hmax (by decide)
  rw [hslice, BigEndian.decode_encode, Nat.mod_eq_of_lt hlt]

theorem cuts_walk (bytes : Bytes) : Cuts bytes (walk bytes) := by
  fun_induction walk bytes with
  | case1 bytes hempty => exact List.isEmpty_iff.mp hempty ▸ .nil
  | case2 bytes hne m rest h hlt ih =>
    obtain ⟨rfl, -⟩ := messageAt_eq_ok.mp h
    exact .message h ih
  | case3 bytes hne flaw h => exact .remainder (fun hnil => hne (List.isEmpty_iff.mpr hnil)) h

theorem walk_of_messageAt (h : messageAt bytes = .ok (m, rest)) :
    walk bytes = .message m :: walk rest := by
  rw [walk]
  split
  · rename_i hempty
    rw [List.isEmpty_iff.mp hempty] at h
    cases h
  · split
    · rename_i h'
      rw [h, Except.ok.injEq, Prod.mk.injEq] at h'
      obtain ⟨rfl, rfl⟩ := h'
      rfl
    · rename_i h'
      rw [h] at h'
      cases h'

theorem walk_of_messages {ms : List Message} (h : ∀ m ∈ ms, m.check = .ok ()) :
    walk (ms.flatMap Message.toBytes) = ms.map .message := by
  induction ms with
  | nil => rw [List.flatMap_nil, walk]; rfl
  | cons m ms ih =>
    obtain ⟨-, hverify⟩ := Message.check_eq_ok.mp (h m List.mem_cons_self)
    rw [List.flatMap_cons, walk_of_messageAt (messageAt_toBytes hverify _), List.map_cons,
      ih fun m' hm' => h m' (List.mem_cons_of_mem m hm')]

theorem Item.length_eq (item : Item) : item.length = item.bytes.length := by
  cases item with
  | message m => exact Message.size_eq_length m
  | remainder => rfl

namespace Cuts

theorem flatMap_bytes (h : Cuts bytes items) : items.flatMap Item.bytes = bytes := by
  induction h with
  | nil => rfl
  | remainder => exact List.append_nil _
  | message _ _ ih => rw [List.flatMap_cons, ih]; rfl

theorem sum_length (h : Cuts bytes items) : (items.map Item.length).sum = bytes.length := by
  have hlength : Item.length = fun item => item.bytes.length := funext Item.length_eq
  rw [hlength, ← List.length_flatMap, h.flatMap_bytes]

theorem count_lt (h : Cuts bytes items) : minSize * items.length < bytes.length + minSize := by
  induction h with
  | nil => decide
  | remainder hne =>
    have hpos := List.length_pos_iff.mpr hne
    rw [List.length_singleton]
    omega
  | @message m rest items h _ ih =>
    have hsize := (messageAt_eq_ok.mp h).2.1
    rw [Message.size_eq_length] at hsize
    rw [List.length_append, List.length_cons, Nat.mul_succ]
    omega

theorem exists_opcode (h : messageAt bytes = .ok (m, rest)) : ∃ code, m.opcode? = some code := by
  have hsize : 12 ≤ m.size := (messageAt_eq_ok.mp h).2.1
  obtain ⟨code, hcode⟩ : ∃ code, m.Holds 4 (u32Bytes code) := Message.exists_u32 hsize
  exact ⟨code, Message.opcode?_eq_some.mpr hcode⟩

theorem last_of_nameless {front back : List Item} {item : Item} (h : Cuts bytes items)
    (hitems : items = front ++ item :: back) (hname : (item.report offset).opcode = none) :
    back = [] := by
  induction h generalizing front with
  | nil => simp at hitems
  | remainder =>
    obtain ⟨-, -, hback⟩ : front = [] ∧ _ ∧ back = [] := by
      simpa [List.singleton_eq_append_iff] using hitems
    exact hback
  | message h _ ih =>
    cases front with
    | nil =>
      obtain ⟨rfl, rfl⟩ := List.cons.inj hitems
      obtain ⟨code, hcode⟩ := exists_opcode h
      simp [Item.report, hcode] at hname
    | cons first front => exact ih (List.cons.inj hitems).2

end Cuts

theorem Item.report_offset (item : Item) (offset : Nat) : (item.report offset).offset = offset := by
  cases item <;> rfl

theorem Item.report_length (item : Item) (offset : Nat) :
    (item.report offset).length = item.length := by
  cases item <;> rfl

theorem Item.report_valid (item : Item) (offset : Nat) :
    (item.report offset).valid = item.valid := by
  cases item with
  | message m =>
    simp only [Item.report, Item.valid]
    cases m.check <;> rfl
  | remainder => rfl

theorem map_length_reportsFrom :
    (reportsFrom offset items).map Report.length = items.map Item.length := by
  induction items generalizing offset with
  | nil => rfl
  | cons item items ih => rw [reportsFrom, List.map_cons, Item.report_length, ih, List.map_cons]

theorem length_reportsFrom : (reportsFrom offset items).length = items.length := by
  rw [← List.length_map (f := Report.length), map_length_reportsFrom, List.length_map]

theorem reportsFrom_append (items items' : List Item) : reportsFrom offset (items ++ items') =
    reportsFrom offset items ++ reportsFrom (offset + (items.map Item.length).sum) items' := by
  induction items generalizing offset with
  | nil => rfl
  | cons item items ih =>
    rw [List.cons_append, reportsFrom, ih, reportsFrom, List.map_cons, List.sum_cons,
      Nat.add_assoc, List.cons_append]

theorem all_valid_reportsFrom :
    (reportsFrom offset items).all (·.valid) = items.all Item.valid := by
  induction items generalizing offset with
  | nil => rfl
  | cons item items ih => rw [reportsFrom, List.all_cons, Item.report_valid, ih, List.all_cons]

theorem reportsFrom_eq_append {front back : List Report} {r : Report}
    (h : reportsFrom offset items = front ++ r :: back) :
    ∃ before item after, items = before ++ item :: after ∧ before.length = front.length ∧
      r = item.report (offset + (before.map Item.length).sum) ∧
      back = reportsFrom (r.offset + r.length) after := by
  induction items generalizing offset front with
  | nil => simp [reportsFrom] at h
  | cons item items ih =>
    cases front with
    | nil =>
      obtain ⟨rfl, rfl⟩ := List.cons.inj h
      refine ⟨[], item, items, rfl, rfl, rfl, ?_⟩
      rw [Item.report_offset, Item.report_length]
    | cons first front =>
      obtain ⟨before, item', after, rfl, hlength, rfl, hback⟩ := ih (List.cons.inj h).2
      refine ⟨item :: before, item', after, rfl, congrArg (· + 1) hlength, ?_, hback⟩
      rw [List.map_cons, List.sum_cons, Nat.add_assoc]

theorem quote_not_mem_opcode {r : Report} (h : r ∈ reports bytes) :
    ∀ name ∈ r.opcode, '"' ∉ name.toList := by
  obtain ⟨front, back, hreports⟩ := List.append_of_mem h
  obtain ⟨-, item, -, -, -, rfl, -⟩ := reportsFrom_eq_append hreports
  intro name hname
  cases item with
  | message m =>
    obtain ⟨code, -, rfl⟩ := Option.map_eq_some_iff.mp hname
    exact Opcode.quote_not_mem_nameOfCode code
  | remainder => cases hname

theorem all_valid_iff : items.all Item.valid = true ↔
    ∃ ms : List Message, (∀ m ∈ ms, m.check = .ok ()) ∧ items = ms.map .message := by
  constructor
  · intro h
    induction items with
    | nil => exact ⟨[], List.forall_mem_nil _, rfl⟩
    | cons item items ih =>
      rw [List.all_cons, Bool.and_eq_true] at h
      obtain ⟨ms, hms, rfl⟩ := ih h.2
      cases item with
      | remainder => cases h.1
      | message m =>
        refine ⟨m :: ms, List.forall_mem_cons.mpr ⟨?_, hms⟩, rfl⟩
        have hvalid : m.check.isOk = true := h.1
        cases hcheck : m.check with
        | ok => rfl
        | error => simp [hcheck, Except.isOk, Except.toBool] at hvalid
  · rintro ⟨ms, hms, rfl⟩
    refine List.all_eq_true.mpr fun item hitem => ?_
    obtain ⟨m, hm, rfl⟩ := List.mem_map.mp hitem
    rw [Item.valid, hms m hm]
    rfl

theorem allValid_iff : allValid bytes = true ↔
    ∃ ms : List Message, (∀ m ∈ ms, m.check = .ok ()) ∧ bytes = ms.flatMap Message.toBytes := by
  rw [allValid, reports, all_valid_reportsFrom, all_valid_iff]
  constructor
  · rintro ⟨ms, hms, hwalk⟩
    have hbytes := (cuts_walk bytes).flatMap_bytes
    rw [hwalk, List.flatMap_map] at hbytes
    exact ⟨ms, hms, hbytes.symm⟩
  · rintro ⟨ms, hms, rfl⟩
    exact ⟨ms, hms, walk_of_messages hms⟩

theorem report_of_check {m : Message} (h : m.check = .ok ()) (offset : Nat) :
    ∃ op : Opcode, m.opcode? = some op.code ∧
      (Item.message m).report offset =
        ⟨offset, some op.name, m.size, true, some m.trailer, none⟩ := by
  obtain ⟨content, -, hop⟩ := Message.exists_decode h
  refine ⟨content.opcode, hop, ?_⟩
  simp [Item.report, h, hop, Opcode.nameOfCode, Opcode.ofCode?_code]

theorem getElem?_reportsFrom_messages (front : List Message) (m : Message) (back : List Message) :
    (reportsFrom 0 ((front ++ m :: back).map .message))[front.length]? =
      some ((Item.message m).report (front.map Message.size).sum) := by
  have hoffset : 0 + ((front.map Item.message).map Item.length).sum =
      (front.map Message.size).sum := by
    rw [Nat.zero_add, List.map_map]
    rfl
  rw [List.map_append, reportsFrom_append, hoffset,
    List.getElem?_append_right (by rw [length_reportsFrom, List.length_map])]
  simp [length_reportsFrom, reportsFrom]

structure Survey (bytes : Bytes) : Prop where
  starts : ∀ {r back}, reports bytes = r :: back → r.offset = 0
  follows : ∀ {front r r' back}, reports bytes = front ++ r :: r' :: back →
    r'.offset = r.offset + r.length
  total : ((reports bytes).map Report.length).sum = bytes.length
  /-- There are no more of them than messages have room, and one for what is left over. -/
  count : minSize * (reports bytes).length < bytes.length + minSize
  named : ∀ {front r back}, reports bytes = front ++ r :: back → r.opcode = none → back = []
  /-- The command writes a line for each, in order. -/
  printed : (Outcome.verify (some bytes)).lines = (reports bytes).map Report.line
  /-- The line holds all of it: no other report, on this capture or another, has the same. -/
  legible : ∀ {bytes' : Bytes} {r r' : Report}, r ∈ reports bytes → r' ∈ reports bytes' →
    r.line = r'.line → r = r'
  /-- The command succeeds on messages that pass their checks, one behind the other, and on nothing
  else. -/
  exit : (Outcome.verify (some bytes)).exit = 0 ↔
    ∃ ms : List Message, (∀ m ∈ ms, m.check = .ok ()) ∧ bytes = ms.flatMap Message.toBytes
  /-- Its reports are then of these messages. -/
  messages : ∀ {ms : List Message}, (∀ m ∈ ms, m.check = .ok ()) →
    bytes = ms.flatMap Message.toBytes → (reports bytes).length = ms.length ∧
      ∀ {front m back}, ms = front ++ m :: back → ∃ op : Opcode, m.opcode? = some op.code ∧
        (reports bytes)[front.length]? = some
          ⟨(front.map Message.size).sum, some op.name, m.size, true, some m.trailer, none⟩

theorem survey (bytes : Bytes) : Survey bytes where
  starts {r back} h := by
    have hfirst : reportsFrom 0 (walk bytes) = [] ++ r :: back := h
    obtain ⟨before, item, after, -, hlength, rfl, -⟩ := reportsFrom_eq_append hfirst
    rw [Item.report_offset, List.length_eq_zero_iff.mp hlength]
    rfl
  follows h := by
    obtain ⟨before, item, after, -, -, -, hback⟩ := reportsFrom_eq_append h
    cases after with
    | nil => cases hback
    | cons next after =>
      obtain ⟨rfl, -⟩ := List.cons.inj hback
      exact Item.report_offset ..
  total := by
    rw [reports, map_length_reportsFrom, (cuts_walk bytes).sum_length]
  count := by
    rw [reports, length_reportsFrom]
    exact (cuts_walk bytes).count_lt
  named h hname := by
    obtain ⟨before, item, after, hwalk, -, rfl, rfl⟩ := reportsFrom_eq_append h
    rw [(cuts_walk bytes).last_of_nameless hwalk hname]
    rfl
  printed := rfl
  legible hr hr' := Report.eq_of_line (quote_not_mem_opcode hr) (quote_not_mem_opcode hr')
  exit := by
    rw [← allValid_iff, Outcome.verify, Outcome.ofSuccess]
    cases allValid bytes <;> simp
  messages {ms} hms hbytes := by
    have hreports : reports bytes = reportsFrom 0 (ms.map .message) := by
      rw [reports, hbytes, walk_of_messages hms]
    refine ⟨by rw [hreports, length_reportsFrom, List.length_map], ?_⟩
    rintro front m back rfl
    obtain ⟨op, hop, hreport⟩ := report_of_check (hms m (List.mem_append_right _ List.mem_cons_self))
      (front.map Message.size).sum
    exact ⟨op, hop, by rw [hreports, getElem?_reportsFrom_messages, hreport]⟩

end Arbiter.Capture
