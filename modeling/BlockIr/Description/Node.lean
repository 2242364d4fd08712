import BlockIr.Description.Error

/-!
# Nodes of a description

A node is a part of a document together with its place, so that a fault can be reported where
it is. The readers below ask a node for what it has to be and fail with a cause otherwise.

* `Node.index`: ids, lengths and positions are whole numbers up to `Binary64.maxSafe`.
* `Node.integer`: constants are integers of any size, or texts that spell one.
-/

namespace BlockIr

/-- A reading of a description: a result or the first problem. -/
abbrev Reading := Except LoadError

structure Node where
  doc : Doc
  place : Place

namespace Node

/-- The root of a document. -/
def root (doc : Doc) : Node := ⟨doc, []⟩

/-- Fail at this node. -/
def fail {α : Type} (node : Node) (cause : Cause) : Reading α :=
  .error (.fault node.place cause)

/-- The entries of a mapping. -/
def entries (node : Node) : Reading (List (String × Node)) :=
  match node.doc with
  | .map entries =>
    .ok (entries.map fun e => (e.1, ⟨e.2, node.place ++ [.key e.1]⟩))
  | _ => node.fail (.expected .mapping)

/-- The entry under a key of a mapping, if there is one. -/
def field? (node : Node) (key : String) : Reading (Option Node) :=
  match node.doc with
  | .map entries =>
    .ok ((entries.lookup key).map fun doc => ⟨doc, node.place ++ [.key key]⟩)
  | _ => node.fail (.expected .mapping)

/-- The entry under a key of a mapping. -/
def field (node : Node) (key : String) : Reading Node := do
  match ← node.field? key with
  | some entry => return entry
  | none => node.fail (.missingField key)

/-- Whether a node is a mapping with this key. -/
def has (node : Node) (key : String) : Bool := (node.doc.get? key).isSome

/-- The items of a list. -/
def list (node : Node) : Reading (List Node) :=
  match node.doc with
  | .list items =>
    .ok (items.mapIdx fun i item => ⟨item, node.place ++ [.item i]⟩)
  | _ => node.fail (.expected .list)

def text (node : Node) : Reading String :=
  match node.doc with
  | .text s => .ok s
  | _ => node.fail (.expected .string)

def bool (node : Node) : Reading Bool :=
  match node.doc with
  | .bool b => .ok b
  | _ => node.fail (.expected .boolean)

/-- A number; an integer is rounded to the nearest one. -/
def number (node : Node) : Reading Binary64 :=
  match node.doc with
  | .float x => .ok x
  | .int n => .ok (.ofInt n)
  | _ => node.fail (.expected .number)

/-- An id, a length or a position. -/
def index (node : Node) : Reading Int := do
  let x ← node.number
  match x.toInt? with
  | some n =>
    if 0 ≤ n ∧ n ≤ Binary64.maxSafe then return n else node.fail (.notIndex x)
  | none => node.fail (.notIndex x)

/-- An integer of any size. A number has to be safe, and a text has to spell an integer. -/
def integer (node : Node) : Reading Int :=
  match node.doc with
  | .int n => .ok n
  | .float x =>
    match x.toInt? with
    | some n =>
      if n.natAbs ≤ Binary64.maxSafe then .ok n else node.fail (.expected .integer)
    | none => node.fail (.expected .integer)
  | .text s =>
    match Text.integer? s with
    | some n => .ok n
    | none => node.fail (.expected .integer)
  | _ => node.fail (.expected .integer)

/-- A word that `parse?` knows. -/
def word {α : Type} (node : Node) (parse? : String → Option α) (cause : String → Cause) :
    Reading α := do
  let w ← node.text
  match parse? w with
  | some a => return a
  | none => node.fail (cause w)

/-! ## Fields with a default -/

def boolOr (node : Node) (key : String) (default : Bool) : Reading Bool := do
  match ← node.field? key with
  | some entry => entry.bool
  | none => return default

def textOr (node : Node) (key : String) (default : String) : Reading String := do
  match ← node.field? key with
  | some entry => entry.text
  | none => return default

/-- The items under a key; no entry is an empty list. -/
def listOrEmpty (node : Node) (key : String) : Reading (List Node) := do
  match ← node.field? key with
  | some entry => entry.list
  | none => return []

/-- The id under a key. -/
def id (node : Node) (key : String) : Reading Int := do
  (← node.field key).index

end Node

end BlockIr
