import BlockIr.Description.Doc
import BlockIr.Text.Integer

/-!
# Places in a document

A place is the way from the root of a document to one of its nodes: a key for every mapping
and a position for every list on the way.

* `Doc.at?`: the node at a place, if the way leads to one.
* `Doc.at?_append`: going a way in two parts is going it at once.
-/

namespace BlockIr

/-- One step from a node to a node inside it. -/
inductive Step where
  | key (key : String)
  | item (position : Nat)
  deriving DecidableEq, Repr

/-- The steps from the root to a node. -/
abbrev Place := List Step

/-- The text of a place with one more step. Keys are set off by dots, but for the first. -/
def Step.extend (text : String) : Step → String
  | .key k => if text = "" then k else text ++ "." ++ k
  | .item position => text ++ "[" ++ Text.integer position ++ "]"

/-- How messages show a place. The root has no text. -/
def Place.text (p : Place) : String := p.foldl Step.extend ""

namespace Doc

/-- The node one step further. -/
def child? : Doc → Step → Option Doc
  | doc, .key k => doc.get? k
  | .list items, .item position => items[position]?
  | _, .item _ => none

/-- The node at a place. -/
def at? (doc : Doc) (place : Place) : Option Doc := place.foldlM child? doc

theorem at?_nil (doc : Doc) : doc.at? [] = some doc := rfl

/-- Going a way in two parts is going it at once. -/
theorem at?_append (doc : Doc) (p q : Place) :
    doc.at? (p ++ q) = (doc.at? p).bind fun d => d.at? q := by
  simp [at?, List.foldlM_append, Option.bind_eq_bind]

end Doc

end BlockIr
