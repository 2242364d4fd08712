import BlockIr.Yaml.Tree.Collection

/-!
# From layout to tree

A layout becomes a tree if it keeps all rules of the format. A tag may ask for a special kind of
collection: a set, or a list of pairs.

* `documentTree?`: the tree of a document.
-/

namespace BlockIr.Yaml

/-! ## Tags of collections -/

/-- Whether an anchor and a tag stand on lines of their own. -/
def onOwnLine (p : Properties) : Bool :=
  let lineEnd := (p.breakAfter.map fun t => t.offset).getD 0
  let before (t : Option Token) : Bool := (t.map fun t => decide (t.offset < lineEnd)).getD true
  before p.anchor && before p.tag

/-- Whether a value leaves a key to stand alone. -/
def isNothing : Option Tree → Bool
  | none => true
  | some (.leaf d x) =>
    (match x.value with
      | .null => true
      | _ => false) && d.commentBefore = "" && d.comment = "" && d.tag.isNone
  | some _ => false

/-- An empty key. -/
def emptyKey : Tree := .leaf {} ⟨.null, none, none, none, 0⟩

/-- An item of a list as a pair. -/
def pairOf? : Tree → Option (Tree × Option Tree)
  | .map d _ entries =>
    match entries with
    | [] => some ((emptyKey.commentBefore d.commentBefore).comment d.comment, none)
    | [(key, value)] =>
      let key := key.commentBefore d.commentBefore
      match value with
      | some value =>
        some (key, some (value.decorate fun e => { e with comment := addComment d.comment e.comment }))
      | none => some (key.decorate fun e => { e with comment := addComment d.comment e.comment }, none)
    | _ => none
  | item => some (item, none)

/-- Whether two keys of ordered pairs are the same scalar. -/
def sameOrdered (a b : Tree) : Bool :=
  match a.scalar?, b.scalar? with
  | some (.float .nan), some (.float .nan) => true
  | _, _ => a.sameKey b

/-- Whether no scalar is a key twice. -/
def distinctKeys : List (Tree × Option Tree) → Bool
  | [] => true
  | e :: rest => !(rest.any fun other => sameOrdered e.1 other.1) && distinctKeys rest

/-- The collection a tag asks for. -/
def retag? (name : String) (tree : Tree) : Option Tree :=
  let tagged (tree : Tree) : Tree := tree.decorate fun d => { d with tag := some name }
  match tree with
  | .map d _ entries =>
    if name = "!" then some (tree.decorate fun d => { d with tag := some (coreTag "map") })
    else if name = coreTag "set" then
      if entries.all fun e => isNothing e.2 then some (tagged (.map d true entries)) else none
    else some (tagged tree)
  | .list d items =>
    if name = "!" then some (tree.decorate fun d => { d with tag := some (coreTag "seq") })
    else if name = coreTag "omap" then do
      let entries ← items.mapM pairOf?
      if distinctKeys entries then return tagged (.pairs d true entries) else none
    else if name = coreTag "pairs" then
      (items.mapM pairOf?).map fun entries => tagged (.pairs d false entries)
    else some (tagged tree)
  | _ => some (tagged tree)

/-! ## Nodes -/

/-- A collection with its tag and its anchor. -/
def finishCollection? (ctx : Context) (p : Properties) (node : Placed) : Option Placed := do
  let anchor ← anchorName? p
  let tree ← match ← tagName? ctx.directives p with
    | none => some node.tree
    | some name => retag? name node.tree
  return ⟨tree.decorate fun d => { d with anchor }, node.stop⟩

/-- Whether a node is written as nothing. -/
def Layout.isEmptyPlain : Layout → Bool
  | .leaf t _ => t.kind == .plain && t.text.isEmpty
  | _ => false

/-- A node with what precedes it. -/
def surround (layout : Layout) (p : Properties) (node : Placed) : Placed :=
  node.map fun tree => tree.decorate fun d =>
    let d := { d with spaceBefore := p.spaceBefore }
    if p.comment = "" then d
    else if layout.isEmptyPlain then { d with comment := p.comment }
    else { d with commentBefore := p.comment }

/-- Read a node; nodes inside it are nested at most `fuel` deep. -/
def node? : Nat → Inner
  | 0, _, _, _ => none
  | fuel + 1, ctx, layout, p =>
    let placed? := match layout with
      | .leaf t behind => ofToken? ctx p t behind
      | .block indent header line text => ofBlock? ctx p indent header line text
      | .map offset indent slots => do
        finishCollection? ctx p (← blockMap? (node? fuel) ctx offset indent slots)
      | .list offset indent slots => do
        if onOwnLine p then
          finishCollection? ctx p (← blockList? (node? fuel) ctx offset indent slots)
        else none
      | .flow indent opening slots closing => do
        finishCollection? ctx p (← flow? (node? fuel) ctx indent opening slots closing)
      | .misplaced _ => none
    placed?.map (surround layout p)

/-! ## Documents -/

/-- The tree of a document, and whether a line of hyphens begins it; nodes are nested at most
`fuel` deep. -/
def documentTree? (fuel : Nat) (d : Directives) (offset : Nat) (start : List Token)
    (content : Option Layout) (behind : List Token) : Option (Tree × Bool) := do
  let ctx : Context := ⟨d, false, false⟩
  let site : Site := ⟨false, .documentStart, .of content (some behind), offset, 0, true⟩
  let p ← properties? site start
  let sameLine := p.found.isSome && !p.hasBreak &&
    (content.map Layout.isBlockCollection).getD false
  if sameLine then none
  else
    let root ← nodeOrMissing? (node? fuel) ctx content p p.stop start
    let _ ← endingFrom? true "" ⟨"", root.stop⟩ behind
    return (root.tree, p.found.isSome)

end BlockIr.Yaml
