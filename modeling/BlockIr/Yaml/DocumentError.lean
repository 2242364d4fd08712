import BlockIr.Text.Quoted

/-!
# Trees without a document

A tree that keeps every rule of the format may still spell no document: a reference may lead
nowhere, be used too often or lead back to itself, and what is merged into a mapping may be no
mapping.

* `DocumentError.text`: what is wrong, in words.
-/

namespace BlockIr.Yaml

inductive DocumentError where
  /-- No anchor of this name stands before a reference. -/
  | unresolved (name : String)
  /-- A node is copied too often. -/
  | excessive
  /-- Something that is no mapping is merged into a mapping. -/
  | mergeSource
  /-- A key of ordered pairs is there twice. -/
  | repeatedKey
  /-- A reference in the text of a key stands before its anchor. -/
  | unresolvedInKey (name : String)
  /-- An anchor in a key holds white space or a control character. -/
  | badAnchor (name : String)
  /-- A mapping is merged into itself. -/
  | endless
  deriving DecidableEq, Repr

namespace DocumentError

/-- What is said of a reference that leads nowhere. -/
def unresolvedText (name : String) : String :=
  "Unresolved alias (the anchor must be set before the alias): " ++ name

def text : DocumentError → String
  | unresolved name | unresolvedInKey name => unresolvedText name
  | excessive => "Excessive alias count indicates a resource exhaustion attack"
  | mergeSource => "Merge sources must be maps or map aliases"
  | repeatedKey => "Ordered maps must not include duplicate keys"
  | badAnchor name =>
    "Anchor must not contain whitespace or control characters: " ++ Text.quoted name
  | endless => "Maximum call stack size exceeded"

end DocumentError

end BlockIr.Yaml
