import Arbiter.Toml.Moment
import Arbiter.Toml.Quoted
import Arbiter.Toml.Tree

/-!
Lines of a document: each opens a table, assigns a value or holds neither. Values nest, and keys
have parts, to a limited depth.
-/

namespace Arbiter.Toml

open Reader

/-- Values nest, and keys have parts, to less than this depth. -/
def depthLimit : Nat := 80

namespace Key

def isBare (c : Char) : Bool := c.isAlphanum ∨ c = '_' ∨ c = '-'

def bare : Reader String := do
  let c ← satisfy isBare
  return String.ofList (c :: (← takeWhile isBare))

def part : Reader String := bare <|> String.ofList <$> (Quoted.basic <|> Quoted.literal)

/-- A dotted key: the parts before the last, and the last. -/
def read : Reader (List String × String) := do
  let parts ← separated (blanks *> part <* blanks) (char '.')
  match parts.getLast? with
  | some last => if parts.length < depthLimit then return (parts.dropLast, last) else failure
  | none => failure

end Key

namespace Value

def readScalar : Reader Value :=
  (.string <$> Quoted.read) <|> (Moment.read *> pure .moment) <|> (Number.float *> pure .float) <|>
    (.integer <$> Number.integer) <|> (word "true" *> pure (.boolean true)) <|>
    (word "false" *> pure (.boolean false))

def readArray (item : Reader Value) : Reader Value := do
  char '['
  let items ← optional do
    let items ← separated (space *> item <* space) (char ',')
    let _ ← optional (char ',')
    return items
  space
  char ']'
  return .array (items.getD [])

def readField (item : Reader Value) : Reader ((List String × String) × Value) := do
  let key ← Key.read
  char '='
  blanks
  return (key, ← item)

def readInlineTable (item : Reader Value) : Reader Value := do
  char '{'
  let fields ← optional (separated (readField item <* blanks) (char ','))
  blanks
  char '}'
  let assign := fun built ((path, key), v) => Fields.assign v path key built
  match (fields.getD []).foldlM assign [] with
  | some built => return .table .inline built
  | none => failure

/-- A value with at most so many brackets and braces open at once. -/
def read : Nat → Reader Value
  | 0 => readScalar
  | depth + 1 => readScalar <|> readArray (read depth) <|> readInlineTable (read depth)

end Value

inductive Line where
  | blank
  | table (path : List String) (key : String)
  | nextTable (path : List String) (key : String)
  | value (path : List String) (key : String) (v : Value)

namespace Line

def header : Reader Line := do
  char '['
  let (path, key) ← Key.read
  char ']'
  lineRest
  return .table path key

def doubledHeader : Reader Line := do
  word "[["
  let (path, key) ← Key.read
  word "]]"
  lineRest
  return .nextTable path key

def assignment : Reader Line := do
  let ((path, key), v) ← Value.readField (Value.read (depthLimit - 1))
  lineRest
  return .value path key v

def noField : Reader Line := (newline <|> (comment *> lineEnd)) *> pure .blank

def read : Reader Line := (noField <|> doubledHeader <|> header <|> assignment) <* blanks

end Line

end Arbiter.Toml
