import Arbiter.Message.Validity

/-!
Captures: files of messages one after another. The walk cuts a capture into its messages; where no
length can be trusted it stops and keeps the rest as one remainder. A report is one line for each.
-/

namespace Arbiter.Capture

open Message (minSize maxSize)

inductive Flaw where
  | truncatedLength
  | badLength (declared : Nat)
  | overrun (declared remaining : Nat)
deriving DecidableEq, Repr

def Flaw.text : Flaw → String
  | truncatedLength => "truncated length prefix"
  | badLength declared => s!"declared length {declared} out of range"
  | overrun declared remaining =>
    s!"declared length {declared} exceeds remaining {remaining} bytes"

inductive Item where
  | message (m : Message)
  | remainder (bytes : Bytes) (flaw : Flaw)

/-- The message at the front of the bytes and how many of them it takes. -/
def messageAt (bytes : Bytes) : Except Flaw (Message × Bytes) :=
  match bytes with
  | a :: b :: c :: d :: _ =>
    let size := BigEndian.decode [a, b, c, d]
    if size < minSize ∨ maxSize < size then .error (.badLength size)
    else
      let (front, rest) := bytes.splitAt size
      if front.length = size then .ok (.ofBytes front, rest)
      else .error (.overrun size bytes.length)
  | _ => .error .truncatedLength

theorem length_lt_of_messageAt {bytes rest : Bytes} {m : Message}
    (h : messageAt bytes = .ok (m, rest)) : rest.length < bytes.length := by
  unfold messageAt at h
  split at h
  · rename_i a b c d tail
    simp only [List.splitAt_eq] at h
    split at h
    · simp at h
    · rename_i hsize
      split at h
      · simp only [Except.ok.injEq, Prod.mk.injEq] at h
        obtain ⟨_, rfl⟩ := h
        have hpos : 12 ≤ BigEndian.decode [a, b, c, d] := by
          have hmin : minSize = 12 := rfl
          omega
        simp only [List.length_drop, List.length_cons]
        omega
      · simp at h
  · simp at h

def walk (bytes : Bytes) : List Item :=
  if bytes.isEmpty then []
  else
    match h : messageAt bytes with
    | .ok (m, rest) =>
      have := length_lt_of_messageAt h
      .message m :: walk rest
    | .error flaw => [.remainder bytes flaw]
termination_by bytes.length

namespace Item

def length : Item → Nat
  | message m => m.size
  | remainder bytes _ => bytes.length

def valid : Item → Bool
  | message m => m.check.isOk
  | remainder _ _ => false

end Item

structure Report where
  offset : Nat
  opcode : Option String
  length : Nat
  valid : Bool
  checksum : Option Bytes
  error : Option String

def Item.report (offset : Nat) : Item → Report
  | .message m =>
    let fault := match m.check with
      | .ok _ => none
      | .error e => some e.text
    ⟨offset, m.opcode?.map Opcode.nameOfCode, m.size, fault.isNone, some m.trailer, fault⟩
  | .remainder bytes flaw => ⟨offset, none, bytes.length, false, none, some flaw.text⟩

/-- Reports of items that lie one after another from an offset on. -/
def reportsFrom : Nat → List Item → List Report
  | _, [] => []
  | offset, item :: items => item.report offset :: reportsFrom (offset + item.length) items

def reports (bytes : Bytes) : List Report := reportsFrom 0 (walk bytes)

def allValid (bytes : Bytes) : Bool := (reports bytes).all (·.valid)

namespace Report

def quoted (text : String) : String := "\"" ++ text ++ "\""

/-- The report as one object; names and error texts hold nothing that needs an escape. -/
def line (r : Report) : String :=
  let checksum := match r.checksum with
    | some bytes => ",\"checksum\":" ++ quoted (Hex.encode bytes)
    | none => ""
  let error := match r.error with
    | some text => ",\"error\":" ++ quoted text
    | none => ""
  "\x7b\"offset\":" ++ toString r.offset ++
    ",\"opcode\":" ++ (r.opcode.map quoted).getD "null" ++
    ",\"length\":" ++ toString r.length ++
    ",\"valid\":" ++ toString r.valid ++ checksum ++ error ++ "\x7d"

end Report

end Arbiter.Capture
