import Arbiter.Proofs.Capture.Walk
import Arbiter.Proofs.Frame.Division

/-!
A capture read as a stream. The walk through the bytes of a capture and a reader of frames on the
same bytes find the same messages in the same places; where one finds no message the other finds no
frame, and for the same cause. Of what is left the walk makes a report, unless nothing is left.
-/

namespace Arbiter.Capture

open Message (minSize maxSize)
open Arbiter.Frame (Front Fits Reads markSize)

variable {bytes left : Bytes} {ms : List Message} {m : Message} {flaw : Flaw}

/-- What a reader of frames makes of bytes in front of which no message can be cut out. -/
def Flaw.front (bytes : Bytes) : Flaw → Front
  | truncatedLength => .finished
  | badLength declared => .badLength declared (bytes.drop markSize)
  | overrun _ _ => .cut

theorem read_eq_messageAt (bytes : Bytes) : Frame.read maxSize bytes = match messageAt bytes with
    | .ok (m, rest) => .frame m rest
    | .error flaw => flaw.front bytes := by
  have hread := Frame.read_eq maxSize bytes
  dsimp only at hread
  by_cases hmark : bytes.length < markSize
  · rw [hread, if_pos hmark, messageAt_of_short hmark]
    rfl
  rw [hread, if_neg hmark, messageAt_of_length (Nat.not_lt.mp hmark)]
  have htake : bytes.take markSize = bytes.take 4 := rfl
  rw [htake]
  generalize BigEndian.decode (bytes.take 4) = size
  dsimp only
  by_cases hrange : minSize ≤ size ∧ size ≤ maxSize
  · have hnot : ¬(size < minSize ∨ maxSize < size) := by omega
    rw [if_pos hrange, if_neg hnot, List.length_take]
    by_cases hcut : bytes.length < size
    · rw [if_pos hcut, if_neg (by omega)]
      rfl
    · rw [if_neg hcut, if_pos (by omega)]
  · have hout : size < minSize ∨ maxSize < size := by omega
    rw [if_neg hrange, if_pos hout]
    rfl

theorem messageAt_eq_ok_iff_read {rest : Bytes} :
    messageAt bytes = .ok (m, rest) ↔ Frame.read maxSize bytes = .frame m rest := by
  rw [read_eq_messageAt]
  cases messageAt bytes with
  | ok found => simp [Prod.ext_iff]
  | error flaw => cases flaw <;> simp [Flaw.front]

theorem walk_of_reads (h : Reads maxSize bytes ms left) :
    walk bytes = ms.map .message ++ walk left := by
  induction h with
  | none => rfl
  | frame h _ ih => rw [walk_of_messageAt (messageAt_eq_ok_iff_read.mpr h), ih]; rfl

theorem walk_of_not_frame (hne : left ≠ [])
    (hstop : ∀ m rest, Frame.read maxSize left ≠ .frame m rest) :
    ∃ flaw, walk left = [.remainder left flaw] ∧ Frame.read maxSize left = flaw.front left := by
  cases hat : messageAt left with
  | ok found => exact absurd (messageAt_eq_ok_iff_read.mp hat) (hstop _ _)
  | error flaw =>
    refine ⟨flaw, ?_, by rw [read_eq_messageAt, hat]⟩
    have hcuts := cuts_walk left
    generalize hitems : walk left = items at hcuts
    cases hcuts with
    | nil => exact absurd rfl hne
    | remainder _ h => rw [← Except.error.inj (hat.symm.trans h)]
    | message h => cases hat.symm.trans h

theorem walk_of_left (hstop : ∀ m rest, Frame.read maxSize left ≠ .frame m rest) :
    left = [] ∧ walk left = [] ∨ left ≠ [] ∧ ∃ flaw, walk left = [.remainder left flaw] ∧
      Frame.read maxSize left = flaw.front left := by
  by_cases hleft : left = []
  · refine .inl ⟨hleft, ?_⟩
    rw [hleft, walk]
    rfl
  · exact .inr ⟨hleft, walk_of_not_frame hleft hstop⟩

def Report.slice (capture : Bytes) (r : Report) : Bytes := (capture.drop r.offset).take r.length

theorem map_slice_reportsFrom (before : Bytes) (items : List Item) (after : Bytes) :
    (reportsFrom before.length items).map
        (Report.slice (before ++ items.flatMap Item.bytes ++ after)) = items.map Item.bytes := by
  induction items generalizing before with
  | nil => rfl
  | cons item items ih =>
    have hfirst : Report.slice (before ++ (item.bytes ++ items.flatMap Item.bytes) ++ after)
        (item.report before.length) = item.bytes := by
      rw [Report.slice, Item.report_offset, Item.report_length, Item.length_eq,
        List.append_assoc, List.drop_left, List.append_assoc, List.take_left]
    have hrest := ih (before ++ item.bytes)
    rw [List.length_append, ← Item.length_eq, List.append_assoc before item.bytes] at hrest
    rw [reportsFrom, List.flatMap_cons, List.map_cons, List.map_cons, hfirst, hrest]

theorem named_of_fits (h : Fits maxSize m) (offset : Nat) :
    ((Item.message m).report offset).opcode.isSome = true := by
  obtain ⟨code, hcode⟩ := Cuts.exists_opcode
    (messageAt_eq_ok.mpr ⟨rfl, h.min, h.max, h.mark⟩ : messageAt (m.toBytes ++ []) = .ok (m, []))
  simp [Item.report, hcode]

theorem named_of_mem_reportsFrom (hfits : ∀ m ∈ ms, Fits maxSize m) {offset : Nat} {r : Report}
    (hr : r ∈ reportsFrom offset (ms.map .message)) : r.opcode.isSome = true := by
  induction ms generalizing offset with
  | nil => cases hr
  | cons m ms ih =>
    rw [List.forall_mem_cons] at hfits
    rcases List.mem_cons.mp hr with rfl | hr
    · exact named_of_fits hfits.1 offset
    · exact ih hfits.2 hr

theorem last_of_append {α : Type} {l front back : List α} {a r : α}
    (h : l ++ [a] = front ++ r :: back) (hr : r ∉ l) : front = l ∧ r = a ∧ back = [] := by
  rcases List.append_eq_append_iff.mp h with ⟨extra, rfl, hlast⟩ | ⟨extra, rfl, hlast⟩
  · obtain ⟨rfl, rfl, rfl⟩ : extra = [] ∧ r = a ∧ back = [] := by
      simpa [List.singleton_eq_append_iff] using hlast
    exact ⟨List.append_nil _, rfl, rfl⟩
  · cases extra with
    | nil =>
      obtain ⟨rfl, rfl⟩ := List.cons.inj hlast
      exact ⟨(List.append_nil _).symm, rfl, rfl⟩
    | cons first extra =>
      obtain ⟨rfl, -⟩ := List.cons.inj hlast
      exact absurd (List.mem_append_right front List.mem_cons_self) hr

/-- The reports on a capture beside the frames `ms` that a reader finds in the same bytes, up to its
first failure, and the bytes `left` behind them. -/
structure Alike (bytes : Bytes) (ms : List Message) (left : Bytes) : Prop where
  reads : Reads maxSize bytes ms left
  stops : ∀ m rest, Frame.read maxSize left ≠ .frame m rest
  /-- The reports with a name are of the frames, in their order and byte for byte. -/
  named : ((reports bytes).filter (·.opcode.isSome)).map (Report.slice bytes) =
    ms.map Message.toBytes
  remainder : (∃ r ∈ reports bytes, r.opcode = none) ↔ left ≠ []
  /-- It is the last, of all these bytes, and says why the reader stopped. -/
  last {front : List Report} {r : Report} {back : List Report} :
    reports bytes = front ++ r :: back → r.opcode = none →
      front.length = ms.length ∧ back = [] ∧ r.slice bytes = left ∧ r.valid = false ∧
        ∃ flaw : Flaw, r.error = some flaw.text ∧ Frame.read maxSize left = flaw.front left

theorem reports_of_reads (hreads : Reads maxSize bytes ms left)
    (hstop : ∀ m rest, Frame.read maxSize left ≠ .frame m rest) : ∃ tail,
    reports bytes = reportsFrom 0 (ms.map .message) ++ tail ∧
      (left = [] ∧ tail = [] ∨ left ≠ [] ∧ ∃ flaw, Frame.read maxSize left = flaw.front left ∧
        tail = [(Item.remainder left flaw).report (ms.flatMap Message.toBytes).length]) := by
  have hoffset : 0 + ((ms.map Item.message).map Item.length).sum =
      (ms.flatMap Message.toBytes).length := by
    rw [Nat.zero_add, funext Item.length_eq, ← List.length_flatMap, List.flatMap_map]
    rfl
  refine ⟨_, by rw [reports, walk_of_reads hreads, reportsFrom_append, hoffset], ?_⟩
  rcases walk_of_left hstop with ⟨hleft, hwalk⟩ | ⟨hleft, flaw, hwalk, hread⟩
  · exact .inl ⟨hleft, by rw [hwalk, reportsFrom]⟩
  · exact .inr ⟨hleft, flaw, hread, by rw [hwalk, reportsFrom, reportsFrom]⟩

theorem alike_of_reads (hreads : Reads maxSize bytes ms left)
    (hstop : ∀ m rest, Frame.read maxSize left ≠ .frame m rest) : Alike bytes ms left := by
  obtain ⟨hbytes, hfits⟩ := Frame.reads_iff.mp hreads
  obtain ⟨tail, hreports, htail⟩ := reports_of_reads hreads hstop
  have hnamed : ∀ r ∈ reportsFrom 0 (ms.map .message), r.opcode.isSome = true :=
    fun r hr => named_of_mem_reportsFrom hfits hr
  refine ⟨hreads, hstop, ?_, ?_, fun {front r back} hsplit hname => ?_⟩
  · have hnone : tail.filter (·.opcode.isSome) = [] := by
      rcases htail with ⟨-, rfl⟩ | ⟨-, flaw, -, rfl⟩ <;> rfl
    have hslices := map_slice_reportsFrom [] (ms.map .message) left
    rw [List.nil_append, List.flatMap_map, List.map_map] at hslices
    rw [hreports, List.filter_append, hnone, List.append_nil, List.filter_eq_self.mpr hnamed,
      hbytes]
    exact hslices
  · rw [hreports]
    rcases htail with ⟨hleft, rfl⟩ | ⟨hleft, flaw, -, rfl⟩
    · refine iff_of_false ?_ (not_not.mpr hleft)
      rintro ⟨r, hr, hname⟩
      rw [List.append_nil] at hr
      simpa [hname] using hnamed r hr
    · exact iff_of_true ⟨_, List.mem_append_right _ (List.mem_singleton_self _), rfl⟩ hleft
  · -- A report without a name is none of those on the frames.
    have hnot : r ∉ reportsFrom 0 (ms.map .message) := fun hr => by simpa [hname] using hnamed r hr
    rw [hreports] at hsplit
    rcases htail with ⟨-, rfl⟩ | ⟨-, flaw, hread, rfl⟩
    · rw [List.append_nil] at hsplit
      exact absurd (hsplit ▸ List.mem_append_right front (List.mem_cons_self ..)) hnot
    · obtain ⟨rfl, rfl, rfl⟩ := last_of_append hsplit hnot
      refine ⟨by rw [length_reportsFrom, List.length_map], rfl, ?_, rfl, flaw, rfl, hread⟩
      rw [hbytes]
      simp [Report.slice, Item.report]

/-- The walk through a capture and a reader of frames with the same limit agree on all bytes. -/
theorem alike_split (bytes : Bytes) :
    Alike bytes (Frame.split maxSize bytes).1 (Frame.split maxSize bytes).2 := by
  obtain ⟨hreads, hstop⟩ := Frame.reads_split maxSize bytes
  exact alike_of_reads hreads hstop

end Arbiter.Capture
