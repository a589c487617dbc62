import Arbiter.Toml.Value

/-!
The tree of tables that headers and assignments build. No table is opened twice, no field is given
twice, and a table written between braces takes no more fields.
-/

namespace Arbiter.Toml

/-- The last item changed. -/
def changeLast {α : Type} (f : α → Option α) : List α → Option (List α)
  | [] => none
  | [a] => (f a).map fun b => [b]
  | a :: b :: rest => (changeLast f (b :: rest)).map fun rest => a :: rest

namespace Fields

/-- Fields reached by a path of keys, changed. Tables on the way are made where there are none. -/
def within (change : Fields → Option Fields) : List String → Fields → Option Fields
  | [], fields => change fields
  | key :: path, fields => do
    match fields.lookup key with
    | none => return fields.put key (.table .parent (← within change path []))
    | some (.table .inline _) => none
    | some (.table origin inner) =>
      return fields.put key (.table origin (← within change path inner))
    | some (.tables items) =>
      return fields.put key (.tables (← changeLast (within change path) items))
    | some _ => none

/-- Opens the table of a header. One that so far was only named on the way keeps its fields. -/
def openTable (key : String) (fields : Fields) : Option Fields :=
  match fields.lookup key with
  | none => some (fields.put key (.table .header []))
  | some (.table .parent inner) => some (fields.put key (.table .header inner))
  | some _ => none

/-- Opens one more table under a doubled header. -/
def openNext (key : String) (fields : Fields) : Option Fields :=
  match fields.lookup key with
  | none => some (fields.put key (.tables [[]]))
  | some (.tables items) => some (fields.put key (.tables (items ++ [[]])))
  | some _ => none

/-- A field given by a dotted key: only tables that such keys made may take it, and only those or
tables named on the way to a header may lie on its path. -/
def assign (v : Value) : List String → String → Fields → Option Fields
  | [], key, fields =>
    match fields.lookup key with
    | none => some (fields.put key v)
    | some _ => none
  | part :: path, key, fields => do
    match fields.lookup part with
    | none => return fields.put part (.table .dotted (← assign v path key []))
    | some (.table origin inner) =>
      if origin = .dotted ∨ (origin = .parent ∧ path ≠ []) then
        return fields.put part (.table origin (← assign v path key inner))
      else none
    | some (.tables items) =>
      if path = [] then none
      else return fields.put part (.tables (← changeLast (assign v path key) items))
    | some _ => none

end Fields

end Arbiter.Toml
