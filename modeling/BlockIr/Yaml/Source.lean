import BlockIr.Description.Parser
import BlockIr.Yaml.Layout.Builder
import BlockIr.Yaml.Sharing
import BlockIr.Yaml.Tree.OfLayout

/-!
# Sources

A source holds one document. Directives may stand before it, if a line of three hyphens begins
it, and behind a line of three dots. An empty source is null.

* `parse`: a parser of descriptions. A source that breaks the rules of the format anywhere has a
  syntax error, whatever else is wrong with it.
-/

namespace BlockIr.Yaml

/-- The parts of a source that have been read. -/
structure SourceReader where
  /-- The directives that hold for the next document. -/
  directives : Directives := .default
  /-- Directives stand before the next document. -/
  pending : Bool := false
  /-- The document, with the directives that hold for it. -/
  document : Option (Tree × Directives) := none

/-- Read a part of a source; nodes are nested at most `fuel` deep. -/
def SourceReader.read? (fuel : Nat) (s : SourceReader) : Part → Option SourceReader
  | .directive line =>
    (s.directives.add? line).map fun directives => { s with directives, pending := true }
  | .document offset start content behind => do
    let (tree, marked) ← documentTree? fuel s.directives offset start content behind
    if s.document.isSome || (s.pending && !marked) then none
    else return ⟨.default, false, some (tree, s.directives)⟩
  | .documentEnd behind => do
    if s.document.isNone then none
    else
      let _ ← ending? 0 (some behind)
      return s
  | .stray => none

/-- The tree of a source, with the directives that hold for it. -/
def tree? (source : List Char) : Option (Tree × Directives) := do
  let fuel := source.length + 1
  let s ← (parts (unifyBreaks source)).foldlM (SourceReader.read? fuel) {}
  match s.document with
  | some document => return document
  | none => if s.pending then none else return (emptyKey, s.directives)

/-- What is said of a source that breaks the rules of the format, wherever it does. -/
def syntaxErrorText : String := "the source is no document"

/-- A source without a tree has no contents; it counts as empty. -/
def parse : Description.Parser DocumentError := fun source =>
  match tree? source.toList with
  | none => ⟨[syntaxErrorText], .ok ⟨.leaf .null, []⟩⟩
  | some (tree, directives) => ⟨[], tree.document directives⟩

end BlockIr.Yaml
