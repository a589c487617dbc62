import Arbiter.Frame
import Arbiter.Proofs.Message.Composition

/-!
How a stream divides into frames. A reader finds the messages that were written, whatever they hold,
and on any stream it finds a front of it, cut where the marks say. An end of the stream counts as a
proper one also when a few bytes of a mark have come; after a whole mark it does not.
-/

namespace Arbiter.Frame

open Message (minSize)

/-- What can be one frame: a message within the limits that is as long as its mark says. -/
structure Fits (limit : Nat) (m : Message) : Prop where
  min : minSize ≤ m.size
  max : m.size ≤ limit
  mark : BigEndian.decode (m.toBytes.take markSize) = m.size

variable {limit : Nat} {stream rest : Bytes} {m : Message} {ms : List Message}

theorem read_eq (limit : Nat) (stream : Bytes) : read limit stream =
    let size := BigEndian.decode (stream.take markSize)
    if stream.length < markSize then .finished
    else if minSize ≤ size ∧ size ≤ limit then
      if stream.length < size then .cut
      else .frame (.ofBytes (stream.take size)) (stream.drop size)
    else .badLength size (stream.drop markSize) := by
  simp only [read, List.splitAt_eq, List.length_take, List.length_drop]
  by_cases hmark : stream.length < markSize
  · rw [if_pos hmark, if_pos (by omega)]
  rw [if_neg hmark, if_neg (by omega)]
  generalize BigEndian.decode (stream.take markSize) = size
  by_cases hsize : minSize ≤ size ∧ size ≤ limit
  · rw [if_pos hsize, if_pos hsize]
    have hmin : markSize ≤ size := Nat.le_trans (by decide) hsize.1
    obtain ⟨body, rfl⟩ := Nat.exists_eq_add_of_le hmin
    rw [Nat.add_sub_cancel_left, List.drop_drop, ← List.take_add]
    by_cases hcut : stream.length < markSize + body
    · rw [if_pos hcut, if_pos (by omega)]
    · rw [if_neg hcut, if_neg (by omega)]
  · rw [if_neg hsize, if_neg hsize]

theorem fits_of_read (h : read limit stream = .frame m rest) : Fits limit m := by
  obtain ⟨hstream, hmark, hmin, hmax⟩ := read_eq_frame h
  have hlength : markSize ≤ m.toBytes.length := by
    rw [← Message.size_eq_length]
    exact Nat.le_trans (by decide) hmin
  rw [hstream, List.take_append_of_le_length hlength] at hmark
  exact ⟨hmin, hmax, hmark.symm⟩

theorem read_append (h : Fits limit m) (rest : Bytes) :
    read limit (m.toBytes ++ rest) = .frame m rest := by
  have hsize := Message.size_eq_length m
  have hmin : markSize ≤ m.toBytes.length := hsize ▸ Nat.le_trans (by decide) h.min
  have hmark : BigEndian.decode ((m.toBytes ++ rest).take markSize) = m.toBytes.length := by
    rw [List.take_append_of_le_length hmin, h.mark, hsize]
  simp only [read_eq, hmark, List.length_append]
  rw [if_neg (by omega), if_pos ⟨hsize ▸ h.min, hsize ▸ h.max⟩, if_neg (by omega),
    List.take_left, List.drop_left]
  rfl

theorem read_eq_frame_iff :
    read limit stream = .frame m rest ↔ stream = m.toBytes ++ rest ∧ Fits limit m := by
  constructor
  · exact fun h => ⟨(read_eq_frame h).1, fits_of_read h⟩
  · rintro ⟨rfl, h⟩
    exact read_append h rest

theorem read_take (h : Fits limit m) {n : Nat} (hn : n < m.size) :
    read limit (m.toBytes.take n) = if n < markSize then .finished else .cut := by
  have hlength : (m.toBytes.take n).length = n := by
    rw [List.length_take, ← Message.size_eq_length]
    omega
  simp only [read_eq, hlength]
  split
  · rfl
  · rename_i hmark
    rw [List.take_take, Nat.min_eq_left (Nat.not_lt.mp hmark), h.mark, if_pos ⟨h.min, h.max⟩,
      if_pos hn]

/-- Reading some frames, each behind the one before it, leaves the rest of the stream. -/
inductive Reads (limit : Nat) : Bytes → List Message → Bytes → Prop where
  | none (stream : Bytes) : Reads limit stream [] stream
  | frame {stream m next ms rest} (h : read limit stream = .frame m next)
      (hnext : Reads limit next ms rest) : Reads limit stream (m :: ms) rest

theorem reads_iff : Reads limit stream ms rest ↔
    stream = ms.flatMap Message.toBytes ++ rest ∧ ∀ m ∈ ms, Fits limit m := by
  constructor
  · intro h
    induction h with
    | none => exact ⟨rfl, List.forall_mem_nil _⟩
    | frame h _ ih =>
      obtain ⟨rfl, hfits⟩ := read_eq_frame_iff.mp h
      obtain ⟨rfl, hrest⟩ := ih
      exact ⟨by rw [List.flatMap_cons, List.append_assoc], List.forall_mem_cons.mpr ⟨hfits, hrest⟩⟩
  · rintro ⟨rfl, hfits⟩
    induction ms with
    | nil => exact .none _
    | cons m ms ih =>
      rw [List.forall_mem_cons] at hfits
      rw [List.flatMap_cons, List.append_assoc]
      exact .frame (read_append hfits.1 _) (ih hfits.2)

theorem Reads.bounded (h : Reads limit stream ms rest) :
    minSize * ms.length + rest.length ≤ stream.length := by
  -- Every frame takes its share of the stream, so there are only so many.
  induction h with
  | none => simp
  | @frame stream m next ms rest h _ ih =>
    obtain ⟨rfl, hfits⟩ := read_eq_frame_iff.mp h
    have hmin := hfits.min
    rw [Message.size_eq_length] at hmin
    rw [List.length_append, List.length_cons, Nat.mul_succ]
    omega

theorem split_of_frame (h : read limit stream = .frame m rest) :
    split limit stream = (m :: (split limit rest).1, (split limit rest).2) := by
  rw [split]
  split
  · rename_i h'
    rw [h, Front.frame.injEq] at h'
    obtain ⟨rfl, rfl⟩ := h'
    rfl
  · rename_i hnot
    exact absurd h (hnot m rest)

theorem split_of_not_frame (h : ∀ m rest, read limit stream ≠ .frame m rest) :
    split limit stream = ([], stream) := by
  rw [split]
  split
  · rename_i h'
    exact absurd h' (h _ _)
  · rfl

theorem Reads.split (h : Reads limit stream ms rest) : Frame.split limit stream =
    (ms ++ (Frame.split limit rest).1, (Frame.split limit rest).2) := by
  induction h with
  | none => rfl
  | frame h _ ih => rw [split_of_frame h, ih, List.cons_append]

theorem reads_split (limit : Nat) (stream : Bytes) :
    Reads limit stream (split limit stream).1 (split limit stream).2 ∧
      ∀ m rest, read limit (split limit stream).2 ≠ .frame m rest := by
  fun_induction split limit stream with
  | case1 stream m rest h _ frames left hsplit ih =>
    rw [hsplit] at ih
    exact ⟨.frame h ih.1, ih.2⟩
  | case2 stream hnot => exact ⟨.none stream, hnot⟩

theorem split_written (h : ∀ m ∈ ms, Fits limit m) :
    split limit (ms.flatMap Message.toBytes) = (ms, []) := by
  have hreads : Reads limit (ms.flatMap Message.toBytes) ms [] :=
    reads_iff.mpr ⟨(List.append_nil _).symm, h⟩
  have hend : split limit [] = ([], []) := split_of_not_frame fun m rest hread => nomatch hread
  rw [hreads.split, hend, List.append_nil]

theorem split_eq_iff : split limit stream = (ms, rest) ↔
    Reads limit stream ms rest ∧ ∀ m rest', read limit rest ≠ .frame m rest' := by
  constructor
  · intro h
    have hreads := reads_split limit stream
    rwa [h] at hreads
  · rintro ⟨hreads, hstop⟩
    rw [hreads.split, split_of_not_frame hstop, List.append_nil]

structure Framing (limit : Nat) : Prop where
  written {ms : List Message} : (∀ m ∈ ms, Fits limit m) →
    split limit (ms.flatMap Message.toBytes) = (ms, []) ∧ ending limit [] = (.finished, [])
  /-- However far any stream is read, the frames are a front of it, and each is as long as its mark
  says. -/
  front {stream rest : Bytes} {ms : List Message} : Reads limit stream ms rest →
    stream = ms.flatMap Message.toBytes ++ rest ∧ ∀ m ∈ ms, Fits limit m
  bounded {stream rest : Bytes} {ms : List Message} : Reads limit stream ms rest →
    minSize * ms.length + rest.length ≤ stream.length
  first {stream rest : Bytes} {ms : List Message} : Reads limit stream ms rest →
    ∃ more, (split limit stream).1 = ms ++ more
  /-- All is read when no frame is in front of what is left. -/
  stops (stream : Bytes) : Reads limit stream (split limit stream).1 (split limit stream).2 ∧
    ∀ m rest, read limit (split limit stream).2 ≠ .frame m rest

theorem framing (limit : Nat) : Framing limit where
  written hfits := ⟨split_written hfits, rfl⟩
  front := reads_iff.mp
  bounded := Reads.bounded
  first h := ⟨_, congrArg Prod.fst h.split⟩
  stops := reads_split limit

structure Endings (limit : Nat) : Prop where
  whole (stream : Bytes) : stream =
    (split limit stream).1.flatMap Message.toBytes ++ (split limit stream).2
  /-- It counts as finished when what is left is too short for a mark. -/
  finished {stream : Bytes} : (ending limit (split limit stream).2).1 = .finished ↔
    (split limit stream).2.length < markSize
  /-- Nothing is left just when it is made of frames. -/
  clean {stream : Bytes} : (split limit stream).2 = [] ↔
    ∃ ms : List Message, (∀ m ∈ ms, Fits limit m) ∧ stream = ms.flatMap Message.toBytes
  /-- Cut inside a frame it ends with an error, once the whole mark has come. -/
  cut {ms : List Message} {m : Message} {n : Nat} : (∀ m' ∈ ms, Fits limit m') → Fits limit m →
    0 < n → n < m.size →
    split limit (ms.flatMap Message.toBytes ++ m.toBytes.take n) = (ms, m.toBytes.take n) ∧
      ending limit (m.toBytes.take n) = (if n < markSize then .finished else .cut, [])

theorem ending_finished_iff (h : ∀ m rest, read limit stream ≠ .frame m rest) :
    (ending limit stream).1 = .finished ↔ stream.length < markSize := by
  have hread := read_eq limit stream
  dsimp only at hread
  by_cases hmark : stream.length < markSize
  · rw [if_pos hmark] at hread
    simp [ending, hread, hmark]
  · rw [if_neg hmark] at hread
    split at hread
    · split at hread
      · simp [ending, hread, hmark]
      · exact absurd hread (h _ _)
    · simp [ending, hread, hmark]

theorem split_cut (hms : ∀ m ∈ ms, Fits limit m) (hm : Fits limit m) {n : Nat} (hn : n < m.size) :
    split limit (ms.flatMap Message.toBytes ++ m.toBytes.take n) = (ms, m.toBytes.take n) := by
  refine split_eq_iff.mpr ⟨reads_iff.mpr ⟨rfl, hms⟩, fun m' rest' h => ?_⟩
  rw [read_take hm hn] at h
  split at h <;> cases h

theorem endings (limit : Nat) : Endings limit where
  whole stream := (reads_iff.mp (reads_split limit stream).1).1
  finished {stream} := ending_finished_iff (reads_split limit stream).2
  clean {stream} := by
    constructor
    · intro hleft
      obtain ⟨hstream, hfits⟩ := reads_iff.mp (reads_split limit stream).1
      rw [hleft, List.append_nil] at hstream
      exact ⟨_, hfits, hstream⟩
    · rintro ⟨ms, hms, rfl⟩
      rw [split_written hms]
  cut {ms m n} hms hm hpos hn := by
    refine ⟨split_cut hms hm hn, ?_⟩
    rw [ending, read_take hm hn]
    by_cases hmark : n < markSize
    · rw [if_pos hmark, if_pos hmark]
    · rw [if_neg hmark, if_neg hmark]

def plainClose : Message :=
  ⟨#[0, 0, 0, 20, 0, 0, 16, 5, 0, 0, 0, 0, 0, 0, 0, 7, 87, 129, 100, 14]⟩

theorem fits_plainClose : Fits Message.maxSize plainClose := ⟨by decide, by decide, by decide⟩

/-- The last byte of a mark is missing, and the end of the stream passes for a proper one. -/
theorem not_finished_clean : ¬∀ (limit : Nat) (stream : Bytes),
    (ending limit (split limit stream).2).1 = .finished →
      stream = (split limit stream).1.flatMap Message.toBytes := by
  intro h
  have hfits : ∀ m ∈ [plainClose], Fits Message.maxSize m :=
    List.forall_mem_singleton.mpr fits_plainClose
  have hsplit := split_cut hfits fits_plainClose (n := 3) (by decide)
  have hclean := h Message.maxSize
    ([plainClose].flatMap Message.toBytes ++ plainClose.toBytes.take 3)
  rw [hsplit] at hclean
  have hmore := congrArg List.length (hclean rfl)
  exact absurd hmore (by decide)

end Arbiter.Frame
