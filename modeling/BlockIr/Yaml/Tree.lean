import BlockIr.Yaml.Scalar

/-!
# Trees

A tree is what a source spells: scalars, collections, and references to earlier nodes by the
name of an anchor. Besides its content a node has decorations, which do not change what it
means: they are seen again only where a collection is written out as the text of a key.
-/

namespace BlockIr.Yaml

/-- What a node has besides its content. An empty text stands for no comment. -/
structure Decoration where
  anchor : Option String := none
  /-- The number of a node with an anchor, among all of them; the number of the node that a
  reference stands for. -/
  number : Option Nat := none
  tag : Option String := none
  /-- An empty line stands before the node. -/
  spaceBefore : Bool := false
  commentBefore : String := ""
  comment : String := ""

/-- Put a comment behind another one. -/
def addComment (comment more : String) : String :=
  if more = "" then comment else if comment = "" then more else comment ++ "\n" ++ more

/-- How a scalar is written. -/
inductive Style where
  | plain | single | double | literal | folded
  deriving DecidableEq, Repr

/-- A scalar as it is written. -/
structure Leaf where
  value : Scalar
  /-- Its text, without quotes; one that nothing stands for has none. -/
  source : Option String
  style : Option Style
  form : Option NumberForm := none
  fractionDigits : Nat := 0

inductive Tree where
  | leaf (d : Decoration) (leaf : Leaf)
  /-- Stands for the node with this anchor. -/
  | reference (d : Decoration) (name : String)
  | list (d : Decoration) (items : List Tree)
  /-- A mapping, or the keys of one as a set. -/
  | map (d : Decoration) (isSet : Bool) (entries : List (Tree × Option Tree))
  /-- A list of pairs; if they are ordered, no key is there twice. -/
  | pairs (d : Decoration) (ordered : Bool) (entries : List (Tree × Option Tree))

namespace Tree

def decoration : Tree → Decoration
  | leaf d _ | reference d _ | list d _ | map d _ _ | pairs d _ _ => d

/-- Change the decoration of a node. -/
def decorate (f : Decoration → Decoration) : Tree → Tree
  | leaf d x => leaf (f d) x
  | reference d name => reference (f d) name
  | list d items => list (f d) items
  | map d isSet entries => map (f d) isSet entries
  | pairs d ordered entries => pairs (f d) ordered entries

/-- Put a comment behind a node. -/
def comment (more : String) (t : Tree) : Tree :=
  t.decorate fun d => { d with comment := addComment d.comment more }

/-- Put a comment in front of those before a node. -/
def commentBefore (more : String) (t : Tree) : Tree :=
  t.decorate fun d => { d with commentBefore := addComment more d.commentBefore }

/-- The value of a scalar. -/
def scalar? : Tree → Option Scalar
  | leaf _ x => some x.value
  | _ => none

def isCollection : Tree → Bool
  | list .. | map .. | pairs .. => true
  | _ => false

/-- Whether two keys of one mapping are the same scalar. -/
def sameKey (a b : Tree) : Bool :=
  match a.scalar?, b.scalar? with
  | some a, some b => a.same b
  | _, _ => false

/-! ## All nodes -/

mutual

/-- A node and all nodes inside it, in the order of the source. -/
def nodes : Tree → List Tree
  | leaf d x => [leaf d x]
  | reference d name => [reference d name]
  | list d items => list d items :: nodesOfList items
  | map d isSet entries => map d isSet entries :: nodesOfEntries entries
  | pairs d ordered entries => pairs d ordered entries :: nodesOfEntries entries

def nodesOfList : List Tree → List Tree
  | [] => []
  | item :: rest => item.nodes ++ nodesOfList rest

def nodesOfEntries : List (Tree × Option Tree) → List Tree
  | [] => []
  | (key, none) :: rest => key.nodes ++ nodesOfEntries rest
  | (key, some value) :: rest => key.nodes ++ value.nodes ++ nodesOfEntries rest

end

/-- The nodes with an anchor. -/
def anchored (t : Tree) : List Tree := t.nodes.filter fun node => node.decoration.anchor.isSome

/-! ## Numbers of nodes -/

/-- The number of the latest anchor of a name; `names` are the anchors so far, the latest one
first. -/
def latest? (name : String) : (names : List String) → Option Nat
  | [] => none
  | other :: names => if other = name then some names.length else latest? name names

/-- Number a node, if it has an anchor, behind those that are numbered. -/
def numberAnchor (d : Decoration) (names : List String) : Decoration × List String :=
  match d.anchor with
  | none => (d, names)
  | some name => ({ d with number := some names.length }, name :: names)

mutual

/-- Number the nodes with anchors in the order of the source, and give each reference the
number of the node it stands for: the latest one before it with its name. -/
def numberFrom (names : List String) : Tree → Tree × List String
  | leaf d x =>
    let (d, names) := numberAnchor d names
    (leaf d x, names)
  | reference d name => (reference { d with number := latest? name names } name, names)
  | list d items =>
    let (d, names) := numberAnchor d names
    let (items, names) := numberList names items
    (list d items, names)
  | map d isSet entries =>
    let (d, names) := numberAnchor d names
    let (entries, names) := numberEntries names entries
    (map d isSet entries, names)
  | pairs d ordered entries =>
    let (d, names) := numberAnchor d names
    let (entries, names) := numberEntries names entries
    (pairs d ordered entries, names)

def numberList (names : List String) : List Tree → List Tree × List String
  | [] => ([], names)
  | item :: rest =>
    let (item, names) := numberFrom names item
    let (rest, names) := numberList names rest
    (item :: rest, names)

def numberEntries (names : List String) :
    List (Tree × Option Tree) → List (Tree × Option Tree) × List String
  | [] => ([], names)
  | (key, none) :: rest =>
    let (key, names) := numberFrom names key
    let (rest, names) := numberEntries names rest
    ((key, none) :: rest, names)
  | (key, some value) :: rest =>
    let (key, names) := numberFrom names key
    let (value, names) := numberFrom names value
    let (rest, names) := numberEntries names rest
    ((key, some value) :: rest, names)

end

/-- A tree whose anchors and references are numbered. -/
def numbered (t : Tree) : Tree := (numberFrom [] t).1

end Tree

end BlockIr.Yaml
