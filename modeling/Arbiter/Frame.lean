import Arbiter.Message.Buffer

/-!
Messages on a stream. A frame is one message; its own first four bytes say how long it is. Reading
classifies the front of a stream as a frame and what follows it, a length out of range, or a stream
that ends before or inside a frame. The content of a frame is not looked at.
-/

namespace Arbiter.Frame

open Message (minSize trailerSize)

inductive Front where
  | frame (m : Message) (rest : Bytes)
  | badLength (declared : Nat) (rest : Bytes)
  /-- Too few bytes for a length: as good as none. -/
  | finished
  | cut

def markSize : Nat := 4

def read (limit : Nat) (stream : Bytes) : Front :=
  let (mark, rest) := stream.splitAt markSize
  if mark.length < markSize then .finished
  else
    let size := BigEndian.decode mark
    if minSize ≤ size ∧ size ≤ limit then
      let (body, rest) := rest.splitAt (size - markSize)
      if body.length < size - markSize then .cut else .frame (.ofBytes (mark ++ body)) rest
    else .badLength size rest

theorem read_eq_frame {limit : Nat} {stream rest : Bytes} {m : Message}
    (h : read limit stream = .frame m rest) :
    stream = m.toBytes ++ rest ∧ m.size = BigEndian.decode (stream.take markSize) ∧
      minSize ≤ m.size ∧ m.size ≤ limit := by
  simp only [read, List.splitAt_eq, List.length_take, List.length_drop] at h
  split at h
  · simp at h
  · rename_i hmark
    split at h
    · rename_i hsize
      split at h
      · simp at h
      · rename_i hbody
        simp only [Front.frame.injEq] at h
        obtain ⟨rfl, rfl⟩ := h
        have hmin : 12 ≤ BigEndian.decode (stream.take markSize) := hsize.1
        have hlen : markSize = 4 := rfl
        have hm : Message.size (.ofBytes (stream.take markSize ++ (stream.drop markSize).take
            (BigEndian.decode (stream.take markSize) - markSize))) =
            BigEndian.decode (stream.take markSize) := by
          simp only [Message.size, Message.ofBytes, List.size_toArray, List.length_append,
            List.length_take, List.length_drop]
          omega
        refine ⟨?_, hm, by rw [hm]; exact hsize.1, by rw [hm]; exact hsize.2⟩
        simp only [Message.toBytes, Message.ofBytes, List.append_assoc]
        rw [List.take_append_drop, List.take_append_drop]
    · simp at h

theorem length_lt_of_read {limit : Nat} {stream rest : Bytes} {m : Message}
    (h : read limit stream = .frame m rest) : rest.length < stream.length := by
  obtain ⟨hstream, _, hmin, _⟩ := read_eq_frame h
  have hsize : m.toBytes.length = m.size := by simp [Message.toBytes, Message.size]
  have hpos : 12 ≤ m.size := hmin
  rw [hstream, List.length_append]
  omega

/-- The frames at the front of a stream and what is left of it after the last of them. -/
def split (limit : Nat) (stream : Bytes) : List Message × Bytes :=
  match h : read limit stream with
  | .frame m rest =>
    have := length_lt_of_read h
    let (frames, left) := split limit rest
    (m :: frames, left)
  | _ => ([], stream)
termination_by stream.length

inductive Ending where
  | finished
  | badLength (declared : Nat)
  | cut
deriving DecidableEq, Repr

def Ending.text : Ending → String
  | finished => "end of stream"
  | badLength declared => s!"frame length {declared} out of range"
  | cut => "I/O error: early eof"

/-- How a stream without a frame at its front ends, and what of it was never read. -/
def ending (limit : Nat) (left : Bytes) : Ending × Bytes :=
  match read limit left with
  | .badLength declared rest => (.badLength declared, rest)
  | .cut => (.cut, [])
  | _ => (.finished, [])

end Arbiter.Frame
