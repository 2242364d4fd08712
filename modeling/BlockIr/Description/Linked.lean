import BlockIr.Description.Doc

/-!
# Linked documents

A document may share parts, and a part may even hold itself: then it is no tree. A linked
document gives its shared parts apart, and links lead to them.

* `LinkedDoc.unfold`: the tree that is seen by a reader who follows at most some number of links
  on the way from the root to any part.
-/

namespace BlockIr

/-- A document with links to shared parts. -/
inductive Linked where
  | leaf (doc : Doc)
  | list (items : List Linked)
  | map (entries : List (String × Linked))
  | link (target : Nat)

namespace Linked

mutual

/-- The document with something in place of each link. -/
def expand (targets : Nat → Doc) : Linked → Doc
  | leaf doc => doc
  | list items => .list (expandList targets items)
  | map entries => .map (Doc.inOrder (expandEntries targets entries))
  | link target => targets target

def expandList (targets : Nat → Doc) : List Linked → List Doc
  | [] => []
  | item :: rest => item.expand targets :: expandList targets rest

def expandEntries (targets : Nat → Doc) : List (String × Linked) → List (String × Doc)
  | [] => []
  | (key, value) :: rest => (key, value.expand targets) :: expandEntries targets rest

end

mutual

/-- Number of parts. -/
def size : Linked → Nat
  | leaf _ | link _ => 1
  | list items => 1 + sizeOfList items
  | map entries => 1 + sizeOfEntries entries

def sizeOfList : List Linked → Nat
  | [] => 0
  | item :: rest => item.size + sizeOfList rest

def sizeOfEntries : List (String × Linked) → Nat
  | [] => 0
  | (_, value) :: rest => value.size + sizeOfEntries rest

end

end Linked

/-- A linked document with the parts that links lead to. -/
structure LinkedDoc where
  root : Linked
  targets : List (Nat × Linked)

namespace LinkedDoc

/-- Number of parts. -/
def size (d : LinkedDoc) : Nat :=
  d.targets.foldl (fun n target => n + target.2.size) d.root.size

/-- A part with the shared parts that are known in place of links, and null in place of other
links. -/
def expandWith (known : List (Nat × Doc)) (part : Linked) : Doc :=
  part.expand fun target => (known.lookup target).getD .null

/-- Shared parts as trees, with links inside them followed once more than in those known. -/
def expandTargets (d : LinkedDoc) (known : List (Nat × Doc)) : List (Nat × Doc) :=
  d.targets.map fun target => (target.1, expandWith known target.2)

/-- The document as a tree, with links followed at most `depth` times in a row. -/
def unfold (d : LinkedDoc) (depth : Nat) : Doc :=
  expandWith (Nat.repeat d.expandTargets depth []) d.root

end LinkedDoc

end BlockIr
