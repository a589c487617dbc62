import Arbiter.Hex
import Arbiter.Toml.Reader

/-!
Quoted text. Double quotes allow escapes and single quotes take every character as it is; tripled
quotes allow line ends. A text is written in the plainest of the four forms that can hold it.
-/

namespace Arbiter.Toml

namespace Quoted

open Reader

/-- The character of a number of hexadecimal digits. -/
def code (digits : Nat) : Reader Char := do
  let value ← (List.replicate digits ()).foldlM (fun n _ => do
    let c ← satisfy fun c => (Hex.value? c).isSome
    return 16 * n + (Hex.value? c).getD 0) 0
  if value.isValidChar then return Char.ofNat value else failure

/-- The rest of an escape after its backslash. -/
def escape : Reader Char := do
  match ← satisfy fun _ => true with
  | 'b' => return '\x08'
  | 't' => return '\t'
  | 'n' => return '\n'
  | 'f' => return '\x0c'
  | 'r' => return '\r'
  | '"' => return '"'
  | '\\' => return '\\'
  | 'u' => code 4
  | 'U' => code 8
  | _ => failure

def isBasic (c : Char) : Bool := isPrinted c ∧ c ≠ '"' ∧ c ≠ '\\'

def isLiteral (c : Char) : Bool := isPrinted c ∧ c ≠ '\''

def basic : Reader (List Char) := do
  char '"'
  let text ← many (satisfy isBasic <|> (char '\\' *> escape))
  char '"'
  return text

def literal : Reader (List Char) := do
  char '\''
  let text ← takeWhile isLiteral
  char '\''
  return text

/-- One or two quotes inside a text in tripled quotes. -/
def innerQuotes (quote : Char) : Reader (List Char) := do
  let quotes ← takeWhile (· = quote)
  if quotes.length = 1 ∨ quotes.length = 2 then return quotes else failure

/-- The quotes that close such a text; up to two before the last three belong to it. -/
def closingQuotes (quote : Char) : Reader (List Char) := do
  let quotes ← takeWhile (· = quote)
  if 3 ≤ quotes.length ∧ quotes.length ≤ 5 then return quotes.drop 3 else failure

/-- A text in tripled quotes. A line end right after the opening ones is dropped. -/
def tripled (quote : Char) (part : Reader (List Char)) : Reader (List Char) := do
  word (String.ofList [quote, quote, quote])
  let _ ← optional newline
  let parts ← many (part <|> innerQuotes quote)
  return parts.flatten ++ (← closingQuotes quote)

def lineBreak : Reader (List Char) := newline *> pure ['\n']

/-- A backslash at the end of a line drops it with all blanks and line ends that follow. -/
def joinedLines : Reader (List Char) := do
  char '\\'
  blanks
  newline
  let _ ← many (blanks *> newline)
  blanks
  return []

def basicPart : Reader (List Char) :=
  (.singleton <$> satisfy isBasic) <|> joinedLines <|> (.singleton <$> (char '\\' *> escape)) <|>
    lineBreak

def literalPart : Reader (List Char) := (.singleton <$> satisfy isLiteral) <|> lineBreak

def read : Reader String := do
  let text ← tripled '"' basicPart <|> basic <|> tripled '\'' literalPart <|> literal
  return String.ofList text

/-! Writing. -/

/-- The length of the longest run of a character. -/
def longestRun (c : Char) (text : List Char) : Nat :=
  (text.foldl (fun (best, run) d =>
    let run := if d = c then run + 1 else 0
    (max best run, run)) (0, 0)).1

/-- Control characters that only an escape can write. -/
def needsCode (c : Char) : Bool := ¬isPrinted c ∧ c ≠ '\n'

inductive Form where
  | basic
  | literal
  | tripledBasic
  | tripledLiteral
deriving DecidableEq, Repr

def form (text : List Char) : Form :=
  let codes := text.any needsCode
  let backslash := text.contains '\\'
  let lines := text.contains '\n'
  let singles := longestRun '\'' text
  let doubles := longestRun '"' text
  if ¬codes ∧ ¬backslash ∧ doubles = 0 ∧ ¬lines then .basic
  else if ¬codes ∧ singles = 0 ∧ ¬lines then .literal
  else if ¬codes ∧ ¬backslash ∧ doubles ≤ 2 then .tripledBasic
  else if ¬codes ∧ singles ≤ 2 then .tripledLiteral
  else if lines then .tripledBasic
  else .basic

def upperHex (n : Nat) : Char := (Nat.digitChar (n % 16)).toUpper

def escaped (c : Char) : List Char :=
  match c with
  | '\x08' => ['\\', 'b']
  | '\t' => ['\\', 't']
  | '\n' => ['\\', 'n']
  | '\x0c' => ['\\', 'f']
  | '\r' => ['\\', 'r']
  | '\\' => ['\\', '\\']
  | '"' => ['\\', '"']
  | c =>
    if needsCode c then ['\\', 'u', '0', '0', upperHex (c.toNat / 16), upperHex c.toNat]
    else [c]

/-- The text with escapes. Up to `allowed` quotes in a row need none, and `run` of them precede. -/
def escapeText (lines : Bool) (allowed run : Nat) : List Char → List Char
  | [] => []
  | c :: rest =>
    if c = '"' ∧ run < allowed then c :: escapeText lines allowed (run + 1) rest
    else if c = '\n' ∧ lines then c :: escapeText lines allowed 0 rest
    else escaped c ++ escapeText lines allowed 0 rest

def write (text : String) : String :=
  let cs := text.toList
  let opening := if cs.contains '\n' then "\n" else ""
  match form cs with
  | .basic => "\"" ++ String.ofList (escapeText false 0 0 cs) ++ "\""
  | .literal => "'" ++ text ++ "'"
  | .tripledBasic => "\"\"\"" ++ opening ++ String.ofList (escapeText true 2 0 cs) ++ "\"\"\""
  | .tripledLiteral => "'''" ++ opening ++ text ++ "'''"

end Quoted

end Arbiter.Toml
