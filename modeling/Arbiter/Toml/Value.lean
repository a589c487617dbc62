/-!
Values of a TOML document. Floats and moments are told apart and not kept.
-/

namespace Arbiter.Toml

/-- How a table came to be, which decides what may still be added to it. -/
inductive Origin where
  /-- Written between braces, and complete. -/
  | inline
  /-- Opened by a header of its own. -/
  | header
  /-- Named on the way to another header. -/
  | parent
  /-- Named on the way to the last part of a dotted key. -/
  | dotted
deriving DecidableEq, Repr

inductive Value where
  | string (text : String)
  | integer (n : Int)
  | float
  | boolean (b : Bool)
  | moment
  | array (items : List Value)
  | table (origin : Origin) (fields : List (String × Value))
  /-- The tables under one doubled header, in order. -/
  | tables (items : List (List (String × Value)))

abbrev Fields := List (String × Value)

/-- The fields with one replaced in its place, or added at the end. -/
def Fields.put (key : String) (v : Value) : Fields → Fields
  | [] => [(key, v)]
  | (k, w) :: rest => if k = key then (k, v) :: rest else (k, w) :: Fields.put key v rest

end Arbiter.Toml
