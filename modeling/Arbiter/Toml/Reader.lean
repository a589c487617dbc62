/-!
Reading from the front of a text. A reader gives what it read and the rest, or nothing.
-/

namespace Arbiter.Toml

abbrev Reader (α : Type) := StateT (List Char) Option α

namespace Reader

def satisfy (p : Char → Bool) : Reader Char
  | c :: rest => if p c then some (c, rest) else none
  | [] => none

def char (c : Char) : Reader Unit := do
  let _ ← satisfy (· = c)

def word (w : String) : Reader Unit := w.toList.forM char

def takeWhile (p : Char → Bool) : Reader (List Char) := fun cs =>
  some (cs.takeWhile p, cs.dropWhile p)

def atEnd : Reader Unit
  | [] => some ((), [])
  | _ :: _ => none

/-- As many items as there are, up to a number of them. -/
def upTo {α : Type} (item : Reader α) : Nat → List Char → List α × List Char
  | 0, cs => ([], cs)
  | n + 1, cs =>
    match item cs with
    | none => ([], cs)
    | some (a, rest) =>
      let (as, rest) := upTo item n rest
      (a :: as, rest)

/-- As many items as there are. Each takes at least one character, so the length bounds them. -/
def many {α : Type} (item : Reader α) : Reader (List α) := fun cs => some (upTo item cs.length cs)

def separated {α : Type} (item : Reader α) (separator : Reader Unit) : Reader (List α) := do
  let first ← item
  return first :: (← many (separator *> item))

/-! Blanks, line ends and comments. -/

def isBlank (c : Char) : Bool := c = ' ' ∨ c = '\t'

/-- A character of a comment: no control character but the tab. -/
def isPrinted (c : Char) : Bool := c = '\t' ∨ (' ' ≤ c ∧ c ≠ '\x7f')

def blanks : Reader Unit := do
  let _ ← takeWhile isBlank

def newline : Reader Unit := char '\n' <|> word "\r\n"

def comment : Reader Unit := do
  char '#'
  let _ ← takeWhile isPrinted

def lineEnd : Reader Unit := newline <|> atEnd

/-- What may follow on a line that is complete. -/
def lineRest : Reader Unit := do
  blanks
  let _ ← optional comment
  lineEnd

/-- Blanks, line ends and comments between the items of an array. -/
def space : Reader Unit := do
  blanks
  let _ ← many do
    let _ ← optional comment
    newline
    blanks

end Reader

end Arbiter.Toml
