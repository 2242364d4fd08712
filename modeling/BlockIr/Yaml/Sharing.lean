import BlockIr.Description.Linked
import BlockIr.Text.Utf8
import BlockIr.Yaml.Written.Collection

/-!
# From tree to document

Reading a tree as a document replaces every reference by the node it stands for. A scalar is
copied; a collection with an anchor is shared, so that it may be a part of itself. Keys become
texts, and other mappings are merged into a mapping where it asks for that.

References are counted, so that a small source cannot spell a huge document: a node may not be
copied more than `maxCopies` times, nor may the nodes inside it.

* `Tree.document`: the document of a tree, or what is wrong with it.
-/

namespace BlockIr.Yaml

/-- Most copies of a node. -/
def maxCopies : Nat := 100

/-- A node with an anchor that has been read, or is being read. -/
structure Anchored where
  name : String
  value : Linked
  /-- One more than the number of references to it. -/
  uses : Nat := 1
  /-- How often the nodes inside it are copied at most; 0 if that has not been counted. -/
  weight : Nat := 0

/-- What has been read so far. -/
structure Sharing where
  /-- By their numbers. -/
  anchors : List (Nat × Anchored) := []
  targets : List (Nat × Linked) := []
  /-- The number of the next target. -/
  next : Nat := 0

/-- Reading may fail, and keeps what has been read. -/
abbrev Reader := StateT Sharing (Except DocumentError)

/-- What holds for a whole document. -/
structure Scope where
  directives : Directives
  /-- The nodes with anchors, in the order of their numbers. -/
  anchored : List Tree

/-! ## Scalars -/

/-- Bytes by their places. -/
def bytesDoc (bytes : List Nat) : Doc :=
  .map (bytes.mapIdx fun i (n : Nat) => (i.repr, .float (.ofInt n)))

def Scalar.doc : Scalar → Doc
  | .null => .null
  | .bool b => .bool b
  | .int n => .int n
  | .float x => .float x
  | .text s => .text s
  | .bytes ns => bytesDoc ns
  | .time _ => .map []
  | .merge => .mergeMark

/-- The text of a simple value as a key; `nullText` is the text of null. -/
def simpleKeyText? (nullText : String) : Linked → Option String
  | .leaf .null => some nullText
  | .leaf (.bool b) => some (if b then "true" else "false")
  | .leaf (.int n) => some (Text.integer n)
  | .leaf (.float x) => some (x.text Binary64.messageStyle)
  | .leaf (.text s) => some s
  | .leaf .mergeMark => some "Symbol(<<)"
  | _ => none

/-- The text of a scalar as a key where its value is no simple one. -/
def Scalar.keyText? : Scalar → Option String
  | .time t => some (Timestamp.long t)
  | .bytes ns => some (String.ofList (Text.Utf8.decode ns))
  | _ => none

/-! ## Keys -/

/-- The text of a key. A collection is written out. -/
def keyText (scope : Scope) (key : Tree) (value : Linked) : Reader String := do
  match simpleKeyText? "" value <|> key.scalar?.bind Scalar.keyText? with
  | some text => return text
  | none =>
    let names := (← get).anchors.map fun a => a.2.name
    match Written.writeCollection scope.directives names key with
    | .ok text => return text
    | .error e => throw e

/-- The text of a key of a mapping that is merged into another one. -/
def mergedKeyText (key : Tree) (value : Linked) : Reader String :=
  return ((simpleKeyText? "null" value <|> key.scalar?.bind Scalar.keyText?).getD "[object Object]")

/-- Whether a key merges other mappings. -/
def isMergeKey (v : Version) : Tree → Bool
  | .leaf _ x =>
    match x.value with
    | .merge => true
    | .text s => v = .v11 && x.style == some .plain && s == "<<"
    | _ => false
  | _ => false

/-! ## Anchors -/

/-- Keep what is known of a node with an anchor. -/
def Sharing.put (s : Sharing) (number : Nat) (a : Anchored) : Sharing :=
  { s with anchors := (number, a) :: s.anchors.filter fun other => other.1 != number }

/-- Read a scalar. -/
def readScalar (d : Decoration) (x : Scalar) : Reader Linked := do
  let value := Linked.leaf x.doc
  match d.anchor, d.number with
  | some name, some number => modify fun s => s.put number { name, value }
  | _, _ => pure ()
  return value

/-- Read a collection; one with an anchor is shared, inside itself already. -/
def readCollection (d : Decoration) (read : Reader Linked) : Reader Linked :=
  match d.anchor, d.number with
  | some name, some number => do
    let target := (← get).next
    let value := Linked.link target
    modify fun s => { s with next := target + 1 }.put number { name, value }
    let content ← read
    modify fun s => { s with targets := (target, content) :: s.targets }
    return value
  | _, _ => read

mutual

/-- How often the parts of a node are copied at most, given the nodes with anchors. -/
def Tree.weight (anchors : List (Nat × Anchored)) : Tree → Nat
  | .leaf .. => 1
  | .reference d _ =>
    match d.number.bind fun n => anchors.lookup n with
    | some a => a.uses * a.weight
    | none => 0
  | .list _ items => weightOfList anchors items
  | .map _ _ entries | .pairs _ _ entries => weightOfEntries anchors entries

def weightOfList (anchors : List (Nat × Anchored)) : List Tree → Nat
  | [] => 0
  | item :: rest => max (item.weight anchors) (weightOfList anchors rest)

/-- How often the parts of some entries are copied at most; a missing value counts once. -/
def weightOfEntries (anchors : List (Nat × Anchored)) : List (Tree × Option Tree) → Nat
  | [] => 0
  | (key, none) :: rest => max (max (key.weight anchors) 1) (weightOfEntries anchors rest)
  | (key, some value) :: rest =>
    max (max (key.weight anchors) (value.weight anchors)) (weightOfEntries anchors rest)

end

/-- The node a reference stands for. -/
def Scope.target? (scope : Scope) (number : Option Nat) : Option Tree :=
  number.bind fun n => scope.anchored[n]?

/-- Read a reference; the node that it stands for is read by `read`, unless that is done. -/
def readReference (scope : Scope) (read : Tree → Reader Linked) (name : String)
    (number : Option Nat) : Reader Linked := do
  match number, scope.target? number with
  | some number, some target =>
    if ((← get).anchors.lookup number).isNone then
      let _ ← read target
    match (← get).anchors.lookup number with
    | none => throw (.unresolved name)
    | some a =>
      let a := { a with uses := a.uses + 1 }
      let s := (← get).put number a
      let weight := if a.weight = 0 then target.weight s.anchors else a.weight
      if maxCopies < a.uses * weight then throw .excessive
      else
        modify fun s => s.put number { a with weight }
        return a.value
  | _, _ => throw (.unresolved name)

/-! ## Merging -/

/-- The node itself, or the one that it stands for. -/
def Scope.deref? (scope : Scope) : Tree → Option Tree
  | .reference d _ => scope.target? d.number
  | t => some t

/-- The nodes that a merge key takes its entries from. -/
def Scope.sources (scope : Scope) (value : Option Tree) : List (Option Tree) :=
  match value.bind scope.deref? with
  | some (.list _ items) => items.map some
  | some (.pairs _ _ entries) => entries.map fun _ => none
  | other => [other]

/-- The entries of a node that is merged. -/
def Scope.sourceEntries (scope : Scope) (source : Option Tree) :
    Reader (List (Tree × Option Tree)) :=
  match source.bind scope.deref? with
  | some (.map _ _ entries) => return entries
  | _ => throw .mergeSource

/-- Put an entry into a mapping; a key that is there keeps its place. -/
def putEntry (entries : List (String × Linked)) (key : String) (value : Linked) :
    List (String × Linked) :=
  match entries with
  | [] => [(key, value)]
  | e :: rest => if e.1 = key then (key, value) :: rest else e :: putEntry rest key value

/-- Put an entry behind a mapping, unless its key is there. -/
def addMissing (entries : List (String × Linked)) (e : String × Linked) :
    List (String × Linked) :=
  if entries.any fun other => other.1 == e.1 then entries else entries ++ [e]

/-! ## Collections -/

/-- Read a value; a missing one is null. -/
def readValue (read : Tree → Reader Linked) (value : Option Tree) : Reader Linked :=
  match value with
  | some value => read value
  | none => return .leaf .null

/-- Read an entry behind others. The text of its key is given by `text`, and the entries of a
mapping that is merged by `merged`. -/
def readEntry (scope : Scope) (read : Tree → Reader Linked)
    (text : Tree → Linked → Reader String)
    (merged : List (Tree × Option Tree) → Reader (List (String × Linked)))
    (entries : List (String × Linked)) (e : Tree × Option Tree) :
    Reader (List (String × Linked)) := do
  if isMergeKey scope.directives.version e.1 then
    (scope.sources e.2).foldlM (fun entries source => do
      let more ← merged (← scope.sourceEntries source)
      return more.foldl addMissing entries) entries
  else
    let key ← text e.1 (← read e.1)
    return putEntry entries key (← readValue read e.2)

/-- Read the keys of a set, which has no entries that can be seen. -/
def readSet (scope : Scope) (read : Tree → Reader Linked)
    (entries : List (Tree × Option Tree)) : Reader Linked := do
  for e in entries do
    if isMergeKey scope.directives.version e.1 then throw .mergeSource
    let _ ← read e.1
  return .leaf (.map [])

/-- Whether two keys of ordered pairs are one and the same. -/
def sameValue : Linked → Linked → Bool
  | .link a, .link b => a == b
  | .leaf .null, .leaf .null => true
  | .leaf (.bool a), .leaf (.bool b) => a == b
  | .leaf (.int a), .leaf (.int b) => a == b
  | .leaf (.text a), .leaf (.text b) => a == b
  | .leaf (.float a), .leaf (.float b) => a == .nan && b == .nan || Scalar.same (.float a) (.float b)
  | _, _ => false

/-- Read ordered pairs, which have no entries that can be seen; `keys` are there before. -/
def readOrdered (read : Tree → Reader Linked) (keys : List Linked) :
    List (Tree × Option Tree) → Reader Linked
  | [] => return .leaf (.map [])
  | (key, value) :: rest => do
    let key ← read key
    let _ ← readValue read value
    if keys.any (sameValue key) then throw .repeatedKey
    else readOrdered read (key :: keys) rest

/-- Read the entries of a mapping, or of one that is merged if `isSource` holds, and read a node;
both nested at most `fuel` deep. -/
def readNested (scope : Scope) : Nat →
    (Bool → List (Tree × Option Tree) → Reader (List (String × Linked))) ×
      (Tree → Reader Linked)
  | 0 => (fun _ _ => throw .endless, fun _ => throw .endless)
  | fuel + 1 =>
    let (entriesOf, read) := readNested scope fuel
    let readEntries (isSource : Bool) (entries : List (Tree × Option Tree)) :=
      let text := if isSource then mergedKeyText else keyText scope
      entries.foldlM (readEntry scope read text (entriesOf true)) []
    (readEntries, fun t =>
      match t with
      | .leaf d x => readScalar d x.value
      | .reference d name => readReference scope read name d.number
      | .list d items => readCollection d do return .list (← items.mapM read)
      | .map d isSet entries => readCollection d do
        if isSet then readSet scope read entries else return .map (← entriesOf false entries)
      | .pairs d ordered entries => readCollection d do
        if ordered then readOrdered read [] entries
        else return .list (← entries.mapM fun e => do return .map (← entriesOf false [e])))

/-- The document of a tree. Reading nests deeper than the tree only where mappings are merged; as
there are no more nodes than `nodes`, twice that many levels suffice unless there is no end. -/
def Tree.document (t : Tree) (d : Directives) : Except DocumentError LinkedDoc := do
  let t := t.numbered
  let scope : Scope := ⟨d, t.anchored⟩
  let fuel := 4 * t.nodes.length + 16
  let (root, s) ← ((readNested scope fuel).2 t).run {}
  return ⟨root, s.targets⟩

end BlockIr.Yaml
