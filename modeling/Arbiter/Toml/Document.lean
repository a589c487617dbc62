import Arbiter.Toml.Line

/-!
Documents, as the fields that their lines build.
-/

namespace Arbiter.Toml

open Reader

/-- What the lines so far have built, and the table that assignments go to. -/
structure Document where
  fields : Fields
  current : List String

namespace Document

def empty : Document := ⟨[], []⟩

def add (d : Document) : Line → Option Document
  | .blank => some d
  | .table path key => do
    return ⟨← d.fields.within (Fields.openTable key) path, path ++ [key]⟩
  | .nextTable path key => do
    return ⟨← d.fields.within (Fields.openNext key) path, path ++ [key]⟩
  | .value path key v => do
    return { d with fields := ← d.fields.within (Fields.assign v path key) d.current }

def lines : Reader (List Line) := do
  let _ ← optional (char '\ufeff')
  blanks
  let lines ← many Line.read
  atEnd
  return lines

def parse? (text : String) : Option Fields := do
  let (lines, _) ← lines text.toList
  return (← lines.foldlM add empty).fields

end Document

end Arbiter.Toml
