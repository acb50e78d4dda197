import ScriptLens.Editor.Value
import ScriptLens.Layout.Format

/-!
# Formatting as an edit

An editor is told to replace the whole document, unless formatting changes nothing.
-/

namespace ScriptLens.Layout

/-- The whole of a text. -/
def fullRange (text : List Char) : Except Failure Range := do
  let all := Text.lines text
  let first ← Position.make 0 0
  let last ← Position.make (all.length - 1 : Nat) (all.getLast?.getD []).length
  return ⟨first, last⟩

/-- The edits that format a document.  Without limits of a host they always exist. -/
def edits (source : String) (requested : Int) (host : Host := {}) : Except Failure (List TextEdit) := do
  let formatted ← formatWithin host source requested
  if source = formatted then return []
  else return [⟨← fullRange source.toList, formatted⟩]

/-- The columns of a level of indentation that an editor asks for, if it asks for any. -/
def requestedTabSize : Option Int → Except Failure Nat
  | none => .ok defaultTabSize
  | some requested => (checkBound .tabSize requested).map fun n => tabSize n

end ScriptLens.Layout
