import BlockIr.Yaml.Tree.Leaf

/-!
# Collections of a tree

The entries of a collection are read one after the other. A key that is not marked stands on one
line, and its colon at most `maxKeyLength` behind its start; no key of a mapping is there twice.

* `blockMap?`, `blockList?`, `flow?`: the collection of some slots. Nodes inside it are read
  by `inner`.
-/

namespace BlockIr.Yaml

/-- How a node inside a collection is read. -/
abbrev Inner := Context → Layout → Properties → Option Placed

/-- Most UTF-16 code units between the start of a key that is not marked and its colon. -/
def maxKeyLength : Nat := 1024

/-- Whether a line break is among some tokens. -/
def breaksLine (tokens : List Token) : Bool := includes .lineBreak tokens

mutual

/-- Whether a node, as a key, runs over more than one line. -/
def Layout.isBroken : Layout → Bool
  | .leaf t behind => t.text.contains '\n' || breaksLine (behind.getD [])
  | .flow _ _ slots _ => slotsBroken slots
  | _ => true

/-- Whether an entry of a flow collection runs over more than one line. -/
def slotsBroken : List (Slot Layout) → Bool
  | [] => false
  | ⟨start, key, sep, value, _⟩ :: rest =>
    breaksLine start || breaksLine (sep.getD []) || partBroken key || partBroken value ||
      slotsBroken rest

/-- Whether a key or a value, if it is there, runs over more than one line. -/
def partBroken : Option Layout → Bool
  | some layout => layout.isBroken
  | none => false

end

/-- A node, or what stands for a missing one behind some tokens. -/
def nodeOrMissing? (inner : Inner) (ctx : Context) (layout : Option Layout) (p : Properties)
    (offset : Nat) (before : List Token) : Option Placed :=
  match layout with
  | some layout => inner ctx layout p
  | none => missing? ctx p offset before

/-- Entries that have been read. -/
structure Entries where
  /-- The latest one first. -/
  entries : List (Tree × Option Tree) := []
  comment : String := ""
  /-- The place behind the entries. -/
  offset : Nat
  /-- The place behind trivia that belong to no entry. -/
  looseStop : Option Nat := none

namespace Entries

/-- Put an entry behind the others, unless its key is there. -/
def add? (e : Entries) (key : Tree) (value : Option Tree) (offset : Nat) : Option Entries :=
  if e.entries.any fun other => other.1.sameKey key then none
  else some { e with entries := (key, value) :: e.entries, offset }

end Entries

/-! ## Block mappings -/

/-- Indentation of a key, if it can be seen. -/
def Layout.column? : Layout → Option Nat
  | .leaf t _ => some t.indent
  | .map _ indent _ | .list _ indent _ | .flow indent .. => some indent
  | .block .. | .misplaced _ => none

/-- Whether a key may stand without a mark in the column of its mapping. -/
def fitsColumn (indent : Nat) (key : Option Layout) : Bool :=
  match key with
  | some key => !key.isBlockList && (key.column?.map (· == indent)).getD true
  | none => true

/-- Whether an entry begins as its mapping asks for. -/
def beginsEntry (indent : Nat) (slot : Slot Layout) (p : Properties) : Bool :=
  match p.found with
  | some mark => mark.indent == indent
  | none => fitsColumn indent slot.key && p.breakAfter.isNone && !partBroken slot.key

/-- Whether a colon stands where it may, behind a key that is not marked. -/
def colonFits (p v : Properties) (colon : Token) (value : Option Layout) : Bool :=
  colon.offset ≤ p.start + maxKeyLength &&
    ((value.map fun layout => !layout.isBlockMap || v.hasBreak).getD true)

/-- What stands before the key of an entry of a block mapping. -/
def keyProperties? (indent : Nat) (slot : Slot Layout) (offset : Nat) : Option Properties :=
  properties? ⟨false, .question, .of slot.key slot.sep, offset, indent, true⟩ slot.start

/-- What stands between the key and the value of an entry of a block mapping. -/
def valueProperties? (indent : Nat) (slot : Slot Layout) (offset : Nat) : Option Properties :=
  let atLineStart := match slot.key with
    | none | some (.block ..) => true
    | _ => false
  properties? ⟨false, .colon, .of slot.value none, offset, indent, atLineStart⟩
    (slot.sep.getD [])

/-- Read an entry of a block mapping. A marked key without a colon has no value, whatever else
stands behind it. -/
def blockSlot? (inner : Inner) (ctx : Context) (indent : Nat) (e : Entries)
    (slot : Slot Layout) : Option Entries := do
  let p ← keyProperties? indent slot e.offset
  if p.found.isNone && p.anchor.isNone && p.tag.isNone && slot.sep.isNone then
    return { e with looseStop := some p.stop, comment := addComment e.comment p.comment }
  else if !beginsEntry indent slot p then none
  else
    let key ← nodeOrMissing? inner { ctx with atKey := true } slot.key p p.stop slot.start
    let v ← valueProperties? indent slot key.stop
    match v.found with
    | some colon =>
      if p.found.isNone && !colonFits p v colon slot.value then none
      else
        let value ← nodeOrMissing? inner ctx slot.value v v.stop (slot.sep.getD [])
        e.add? key.tree (some value.tree) value.stop
    | none =>
      if p.found.isNone then none else e.add? (key.tree.comment v.comment) none v.stop

/-- Read a block mapping. -/
def blockMap? (inner : Inner) (ctx : Context) (offset indent : Nat)
    (slots : List (Slot Layout)) : Option Placed := do
  let ctx := { ctx with atKey := false, nested := true }
  let e ← slots.foldlM (blockSlot? inner ctx indent) { offset }
  let stop := e.looseStop.getD e.offset
  if stop < e.offset && stop != 0 then none
  else return ⟨.map { comment := e.comment } false e.entries.reverse, stop⟩

/-! ## Block lists -/

/-- Items that have been read. -/
structure Items where
  /-- The latest one first. -/
  items : List Tree := []
  comment : String := ""
  offset : Nat
  looseStop : Option Nat := none

/-- Read an item of a block list. -/
def blockItem? (inner : Inner) (ctx : Context) (indent : Nat) (l : Items)
    (slot : Slot Layout) : Option Items := do
  let site : Site := ⟨false, .hyphen, .of slot.value none, l.offset, indent, true⟩
  let p ← properties? site slot.start
  if p.found.isNone then
    if p.anchor.isSome || p.tag.isSome || slot.value.isSome then none
    else
      let comment := if p.comment = "" then l.comment else p.comment
      return { l with looseStop := some p.stop, comment }
  else
    let node ← nodeOrMissing? inner ctx slot.value p p.stop slot.start
    return { l with items := node.tree :: l.items, offset := node.stop }

/-- Read a block list. -/
def blockList? (inner : Inner) (ctx : Context) (offset indent : Nat)
    (slots : List (Slot Layout)) : Option Placed := do
  let ctx := { ctx with atKey := false, nested := true }
  let l ← slots.foldlM (blockItem? inner ctx indent) { offset }
  return ⟨.list { comment := l.comment } l.items.reverse, l.looseStop.getD l.offset⟩

/-! ## Flow collections -/

/-- The comment directly behind a comma, which belongs to the entry before it. -/
def commentBehindComma : List Token → String
  | [] => ""
  | t :: rest =>
    match t.kind with
    | .comma | .blanks => commentBehindComma rest
    | .comment => String.ofList (t.text.drop 1)
    | _ => ""

/-- Give the comment behind a comma to the latest entry. -/
def Entries.commentLast (e : Entries) (comment : String) : Entries :=
  match e.entries with
  | (key, some value) :: rest => { e with entries := (key, some (value.comment comment)) :: rest }
  | (key, none) :: rest => { e with entries := (key.comment comment, none) :: rest }
  | [] => e

/-- Split the comments before an entry into the one that belongs to the entry before and the
others. -/
def splitComment (start : List Token) (p : Properties) : String × Properties :=
  let comment := if p.comment = "" then "" else commentBehindComma start
  if comment = "" then ("", p)
  else
    let rest := String.ofList (p.comment.toList.drop (comment.length + 1))
    (comment, { p with comment := rest })

/-- Whether the key of an entry of a list may stand there: on one line with its colon, and not
too far from it. -/
def pairFits (p : Properties) (colon : Token) (sep : List Token) : Bool :=
  !breaksLine (sep.takeWhile fun t => t.kind != .colon) &&
    colon.offset ≤ p.start + maxKeyLength

/-- Read an entry with a key of a flow collection: the key, the value, and the place behind
them. -/
def flowPair? (inner : Inner) (ctx : Context) (isMap : Bool) (indent : Nat)
    (slot : Slot Layout) (p : Properties) : Option (Tree × Option Tree × Nat) := do
  let sep := slot.sep.getD []
  let key ← nodeOrMissing? inner { ctx with atKey := true } slot.key p p.stop slot.start
  let site : Site := ⟨true, .colon, .of slot.value none, key.stop, indent, false⟩
  let v ← properties? site sep
  if ((slot.key.map Layout.isBlockCollection).getD false) ||
      ((slot.value.map Layout.isBlockCollection).getD false) then none
  else
    match v.found, slot.value with
    | some colon, value =>
      if !isMap && p.found.isNone && !pairFits p colon sep then none
      else
        let value ← nodeOrMissing? inner ctx value v v.stop sep
        return (key.tree, some value.tree, value.stop)
    | none, some _ => none
    | none, none => return (key.tree.comment v.comment, none, v.stop)

/-- Read an entry of a flow collection; those of a list are kept as keys. -/
def flowSlot? (inner : Inner) (ctx : Context) (isMap : Bool) (indent count : Nat)
    (e : Entries) (entry : Nat × Slot Layout) : Option Entries := do
  let (i, slot) := entry
  let site : Site := ⟨true, .question, .of slot.key slot.sep, e.offset, indent, false⟩
  let p ← properties? site slot.start
  let bare := p.found.isNone
  if bare && p.anchor.isNone && p.tag.isNone && slot.sep.isNone && slot.value.isNone then
    if (i = 0 && p.comma) || i + 1 < count then none
    else return { e with comment := addComment e.comment p.comment, offset := p.stop }
  else if (bare && !isMap && partBroken slot.key) || (i = 0) == p.comma then none
  else
    let (comment, p) := if i = 0 then ("", p) else splitComment slot.start p
    let e := e.commentLast comment
    if !isMap && slot.sep.isNone && bare then
      if (slot.value.map Layout.isBlockCollection).getD false then none
      else
        let node ← nodeOrMissing? inner ctx slot.value p p.stop []
        return { e with entries := (node.tree, none) :: e.entries, offset := node.stop }
    else
      let (key, value, stop) ← flowPair? inner ctx isMap indent slot p
      if isMap then e.add? key value stop
      else
        let pair : Tree := .map {} false [(key, value)]
        return { e with entries := (pair, none) :: e.entries, offset := stop }

/-- What closes a flow collection. -/
def closer (isMap : Bool) : LexemeKind := if isMap then .mapClose else .listClose

/-- Read a flow collection. -/
def flow? (inner : Inner) (ctx : Context) (indent : Nat) (opening : Token)
    (slots : List (Slot Layout)) (closing : List Token) : Option Placed := do
  let isMap := opening.kind == .mapOpen
  let ctx := { ctx with atKey := false, nested := true }
  let numbered := (List.range slots.length).zip slots
  let e ← numbered.foldlM (flowSlot? inner ctx isMap indent slots.length)
    { offset := opening.stop }
  match closing with
  | [] => none
  | close :: behind =>
    if close.kind != closer isMap then none
    else
      let ending ← ending? close.stop (some behind)
      let d : Decoration := { comment := addComment e.comment ending.comment }
      let entries := e.entries.reverse
      return ⟨if isMap then .map d false entries else .list d (entries.map Prod.fst),
        ending.stop⟩

end BlockIr.Yaml
