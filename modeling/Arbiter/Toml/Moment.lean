import Arbiter.Toml.Number

/-!
Dates and times. A date must exist in its month and year; a minute may have a leap second.
-/

namespace Arbiter.Toml.Moment

open Reader

def number (width : Nat) : Reader Nat := do
  let ds ← (List.replicate width ()).mapM fun _ => satisfy (Number.digitIn 10)
  return Number.valueOf 10 ds

def between (low high : Nat) : Reader Nat := do
  let n ← number 2
  if low ≤ n ∧ n ≤ high then return n else failure

def isLeap (year : Nat) : Bool := year % 4 = 0 ∧ (year % 100 ≠ 0 ∨ year % 400 = 0)

def daysIn (year month : Nat) : Nat :=
  if month = 2 then if isLeap year then 29 else 28
  else if month = 4 ∨ month = 6 ∨ month = 9 ∨ month = 11 then 30
  else 31

def date : Reader Unit := do
  let year ← number 4
  char '-'
  let month ← between 1 12
  char '-'
  let _ ← between 1 (daysIn year month)

def time : Reader Unit := do
  let _ ← between 0 23
  char ':'
  let _ ← between 0 59
  char ':'
  let _ ← between 0 60
  let _ ← optional do
    char '.'
    let _ ← satisfy (Number.digitIn 10)
    takeWhile (Number.digitIn 10)

def offset : Reader Unit := do
  match ← satisfy fun _ => true with
  | 'Z' | 'z' => return
  | '+' | '-' =>
    let _ ← between 0 23
    char ':'
    let _ ← between 0 59
  | _ => failure

def timeOfDate : Reader Unit := do
  let _ ← satisfy fun c => c = 'T' ∨ c = 't' ∨ c = ' '
  time
  let _ ← optional offset

def read : Reader Unit := (do date; let _ ← optional timeOfDate) <|> time

end Arbiter.Toml.Moment
