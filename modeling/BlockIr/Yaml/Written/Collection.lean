import BlockIr.Yaml.DocumentError
import BlockIr.Yaml.Folding
import BlockIr.Yaml.Tag
import BlockIr.Yaml.Written.Scalar

/-!
# Written collections

A collection is written between brackets: on one line if its entries fit there and none of them
needs a line of its own, and with each entry on its own line otherwise. Comments, anchors, tags
and references are kept.

* `writeCollection`: a collection as a text.
-/

namespace BlockIr.Yaml.Written

/-- Writing may fail, and keeps the anchors that have been written. -/
abbrev Writer := StateT (List String) (Except DocumentError)

/-! ## Comments -/

/-- A comment behind its marks. -/
def markComment (comment : String) : List (List Char) :=
  (splitLines comment.toList).map fun line =>
    if line.isEmpty then [] else if line == [' '] then ['#'] else '#' :: line

/-- Lines of a comment, indented unless they are blank. -/
def indentLines (indent : Nat) (lines : List (List Char)) : List Char :=
  if lines.all List.isEmpty then ['\n'].intercalate (lines.drop 1)
  else
    ['\n'].intercalate (lines.map fun line =>
      if line.all (· == ' ') then line else List.replicate indent ' ' ++ line)

/-- What is put behind a text for the sake of a comment. -/
def commentBehind (indent : Nat) (comment : String) (text : List Char) : List Char :=
  if comment = "" then []
  else
    match markComment comment with
    | [line] => if text.getLast? == some ' ' then line else ' ' :: line
    | lines => '\n' :: indentLines indent lines

/-! ## Entries -/

/-- An entry of a collection that is ready to be put on lines. -/
structure Item where
  /-- Lines before it. -/
  before : List (List Char)
  text : List Char
  comment : String
  /-- The entry needs a line of its own. -/
  apart : Bool

/-- The lines before a node: an empty one, and a comment. -/
def linesBefore (indent : Nat) (d : Decoration) : List (List Char) :=
  (if d.spaceBefore then [[]] else []) ++
    if d.commentBefore = "" then []
    else [(indentLines indent (markComment d.commentBefore)).dropWhile isWhiteSpace]

/-- An item of a list. -/
def itemOf (indent : Nat) (d : Decoration) (text : List Char) : Item :=
  ⟨linesBefore indent d, text, d.comment, d.comment != ""⟩

/-- An entry of a mapping. -/
def entryOf (indent : Nat) (key : Decoration) (value : Option Decoration) (text : List Char) :
    Item :=
  let comment := (value.getD key).comment
  let apart := key.comment != "" || comment != "" || (value.getD {}).commentBefore != ""
  ⟨linesBefore indent key, text, comment, apart⟩

/-- The lines of the items of a collection. -/
def linesOf (itemIndent : Nat) : List Item → List (List Char)
  | [] => []
  | item :: rest =>
    let text := if rest.isEmpty then item.text else item.text ++ [',']
    item.before ++ (text ++ commentBehind itemIndent item.comment text) :: linesOf itemIndent rest

/-- Items between brackets. -/
def bracket (indent itemIndent : Nat) (opening closing : Char) (items : List Item) :
    List Char :=
  let lines := linesOf itemIndent items
  let width := lines.foldl (fun n line => n + Text.unitsOf line + 2) 2
  let spread := lineWidth < width ||
    items.any fun item => item.apart || !item.before.isEmpty || item.text.contains '\n'
  if lines.isEmpty then [opening, closing]
  else if spread then
    opening :: (lines.flatMap fun line =>
      if line.isEmpty then ['\n'] else newLine (indent + 2) ++ line) ++ newLine indent ++ [closing]
  else opening :: ' ' :: [' '].intercalate lines ++ [' ', closing]

/-! ## Pairs -/

/-- Whether a key is written behind a question mark. -/
def isMarkedKey : Tree → Bool
  | .leaf _ x => x.style == some .literal || x.style == some .folded
  | _ => true

/-- Where the key of an entry is written. -/
def keySpot (spot : Spot) (alone : Bool) (key : Tree) : Spot :=
  { spot with indent := spot.indent + 2, oneLine := !isMarkedKey key && !alone }

/-- A key without a value. -/
def loneKey (key : Tree) (text : List Char) : List Char :=
  if text.isEmpty then ['?'] else if isMarkedKey key then '?' :: ' ' :: text else text

/-- A key up to its colon, with its comment. -/
def keyHead (indent : Nat) (key : Tree) (text : List Char) : List Char :=
  let comment := key.decoration.comment
  if isMarkedKey key then
    let text := text ++ commentBehind (indent + 2) comment text
    '?' :: ' ' :: text ++ newLine indent ++ [':']
  else
    let text := text ++ [':']
    text ++ commentBehind (indent + 2) comment text

/-- Where the value of an entry is written. -/
def valueSpot (spot : Spot) (key value : Tree) (head : List Char) : Spot :=
  let measured := !isMarkedKey key && key.decoration.comment = "" && value.scalar?.isSome
  { spot with
    oneLine := false
    atStart := if measured then some (Text.unitsOf head + 1) else spot.atStart }

/-- Whether only an anchor and a tag stand on the first line of a text. -/
def startsWithProperties (text : List Char) : Bool :=
  let line := text.takeWhile (· != '\n')
  let first := line.takeWhile (· != ' ')
  match text with
  | '!' :: _ => first.length = line.length
  | '&' :: _ =>
    match line.drop (first.length + 1) with
    | '!' :: rest => !rest.contains ' '
    | _ => first.length = line.length
  | _ => false

/-- What separates a value from the colon before it. -/
def beforeValue (indent : Nat) (key value : Tree) (text : List Char) : List Char :=
  let d := value.decoration
  if key.decoration.comment != "" || d.spaceBefore || d.commentBefore != "" then
    (if d.spaceBefore then ['\n'] else []) ++
      (if d.commentBefore = "" then []
       else '\n' :: indentLines indent (markComment d.commentBefore)) ++
      newLine indent
  else if !isMarkedKey key && value.isCollection then
    if text.contains '\n' && !startsWithProperties text then newLine indent else [' ']
  else if text.isEmpty || text.head? == some '\n' then []
  else [' ']

/-! ## Nodes -/

/-- Whether an anchor may not be written. -/
def isBadAnchor (name : String) : Bool :=
  name.toList.any fun c => c.toNat ≤ 0x19 || isWhiteSpace c || isFlowIndicator c

/-- The anchor and the tag of a node. -/
def writeProperties (ds : Directives) (d : Decoration) : Writer (List Char) := do
  let anchor ← match d.anchor with
    | none => pure []
    | some name =>
      if isBadAnchor name then throw (.badAnchor name)
      else do
        modify (name :: ·)
        pure [('&' :: name.toList)]
  let tag := (d.tag.map fun name => (ds.shorten name).toList).toList
  return [' '].intercalate (anchor ++ tag)

/-- Behind an anchor and a tag. -/
def Spot.behind (spot : Spot) (properties : List Char) : Spot :=
  if properties.isEmpty then spot
  else { spot with atStart := some (spot.atStart.getD 0 + Text.unitsOf properties + 1) }

/-- A node behind its anchor and its tag. -/
def attach (spot : Spot) (inline : Bool) (properties text : List Char) : List Char :=
  if properties.isEmpty then text
  else if inline || text.head? == some '[' || text.head? == some '\x7b' then
    properties ++ ' ' :: text
  else properties ++ newLine spot.indent ++ text

/-- The text of a collection under a tag that is none of a collection. -/
def writeMistagged? (v : Version) (tag : Option String) : Option String :=
  match tag with
  | none => none
  | some tag =>
    if tag = coreTag "str" then some "undefined"
    else if tag = coreTag "int" || tag = coreTag "float" then some ".nan"
    else if tag = coreTag "null" then some "null"
    else if tag = coreTag "bool" then some "false"
    else if v = .v11 && tag = coreTag "merge" then some (String.ofList mergeText)
    else if v = .v11 && (tag = coreTag "binary" || tag = coreTag "timestamp") then some ""
    else none

mutual

/-- Write a node; the place behind its properties comes with it. -/
def writeNode (ds : Directives) (spot : Spot) : Tree → Writer (List Char × Spot)
  | .reference _ name => do
    if (← get).contains name then return ('*' :: name.toList, spot)
    else throw (.unresolvedInKey name)
  | .leaf d x => do
    let properties ← writeProperties ds d
    let inner := spot.behind properties
    return (attach spot true properties (writeLeaf ds.version inner d.tag x), inner)
  | .list d items => do
    let properties ← writeProperties ds d
    let inner := spot.behind properties
    let text ← match writeMistagged? ds.version d.tag with
      | some text => pure text.toList
      | none => do
        let itemIndent := spot.indent + 4
        let items ← writeItems ds spot.indent { inner with indent := itemIndent } items
        pure (bracket spot.indent itemIndent '[' ']' items)
    return (attach spot false properties text, inner)
  | .map d isSet entries => do
    let properties ← writeProperties ds d
    let inner := spot.behind properties
    let alone := isSet || entries.all fun e => e.2.isNone
    let text ← match writeMistagged? ds.version d.tag with
      | some text => pure text.toList
      | none => do
        let itemIndent := spot.indent + 2
        let items ← writeEntries ds spot.indent alone { inner with indent := itemIndent } entries
        pure (bracket spot.indent itemIndent '\x7b' '\x7d' items)
    return (attach spot false properties text, inner)
  | .pairs d _ entries => do
    let properties ← writeProperties ds d
    let inner := spot.behind properties
    let itemIndent := spot.indent + 4
    let items ← writeEntries ds spot.indent false { inner with indent := itemIndent } entries
    return (attach spot false properties (bracket spot.indent itemIndent '[' ']' items), inner)

/-- Write the items of a list. -/
def writeItems (ds : Directives) (indent : Nat) (spot : Spot) :
    List Tree → Writer (List Item)
  | [] => return []
  | item :: rest => do
    let (text, spot) ← writeNode ds spot item
    return itemOf indent item.decoration text :: (← writeItems ds indent spot rest)

/-- Write the entries of a mapping, or pairs; if they stand alone no values are written. -/
def writeEntries (ds : Directives) (indent : Nat) (alone : Bool) (spot : Spot) :
    List (Tree × Option Tree) → Writer (List Item)
  | [] => return []
  | (key, none) :: rest => do
    let (text, _) ← writeNode ds (keySpot spot alone key) key
    let item := entryOf indent key.decoration none (loneKey key text)
    return item :: (← writeEntries ds indent alone spot rest)
  | (key, some value) :: rest => do
    let (text, behind) ← writeNode ds (keySpot spot alone key) key
    let text ←
      if alone then pure (loneKey key text)
      else do
        let head := keyHead spot.indent key text
        let (text, _) ← writeNode ds (valueSpot behind key value head) value
        pure (head ++ beforeValue behind.indent key value text ++ text)
    let item := entryOf indent key.decoration (some value.decoration) text
    return item :: (← writeEntries ds indent alone spot rest)

end

/-- A collection, or a reference to one, as a text; `anchors` may be referred to. Its own anchor
and tag are left out. -/
def writeCollection (ds : Directives) (anchors : List String) (tree : Tree) :
    Except DocumentError String := do
  let bare := tree.decorate fun d => { d with anchor := none, tag := none }
  let ((text, _), _) ← (writeNode ds ⟨0, none, false⟩ bare).run anchors
  return String.ofList text

end BlockIr.Yaml.Written
