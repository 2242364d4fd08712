import BlockIr.Yaml.Layout

/-!
# Open nodes

While a source is read, the nodes that are not finished yet stand on a stack of frames, the
innermost one on top and a document at the bottom. The slots of an open collection are kept
with the latest one first.

* `Builder.give`: a finished node becomes a part of the frame on top.
* `Builder.close`: the frame on top is finished and given to the one below.
-/

namespace BlockIr.Yaml

inductive Frame where
  | document (offset : Nat) (start : List Token) (content : Option Layout) (behind : List Token)
  | documentEnd (behind : List Token)
  | leaf (token : Token) (behind : Option (List Token))
  | block (header : Token) (line : List Token) (text : List Char)
  | map (offset indent : Nat) (slots : List (Slot Layout))
  | list (offset indent : Nat) (slots : List (Slot Layout))
  | flow (indent : Nat) (opening : Token) (slots : List (Slot Layout)) (closing : List Token)

/-! ## What precedes a key -/

/-- Kinds behind which the properties of a key begin. -/
def LexemeKind.startsKey : LexemeKind → Bool
  | documentStart | question | colon | hyphen | lineBreak => true
  | _ => false

/-- Split tokens into those that stay and the properties of a key at their end. -/
def splitKeyStart (tokens : List Token) : List Token × List Token :=
  let tail := (tokens.reverse.takeWhile fun t => !t.kind.startsKey).reverse
  let own := tail.dropWhile fun t => t.kind == .blanks
  (tokens.take (tokens.length - own.length), own)

namespace Frame

/-- The tokens of a frame that may be properties of a key inside the next node. -/
def keyStart : Frame → List Token
  | document _ start _ _ => start
  | map _ _ (slot :: _) => slot.sep.getD slot.start
  | list _ _ (slot :: _) => slot.start
  | _ => []

/-- Replace the tokens that `keyStart` gives. -/
def setKeyStart (tokens : List Token) : Frame → Frame
  | document offset _ content behind => document offset tokens content behind
  | map offset indent (slot :: earlier) =>
    map offset indent ((match slot.sep with
      | some _ => { slot with sep := some tokens }
      | none => { slot with start := tokens }) :: earlier)
  | list offset indent (slot :: earlier) =>
    list offset indent ({ slot with start := tokens } :: earlier)
  | frame => frame

/-- Take the properties of a key from a frame. -/
def splitKey (frame : Frame) : Frame × List Token :=
  let (kept, own) := splitKeyStart frame.keyStart
  (frame.setKeyStart kept, own)

/-- Indentation of what a frame holds. -/
def indent : Frame → Nat
  | document .. | documentEnd _ => 0
  | leaf token _ => token.indent
  | block header _ _ => header.indent
  | map _ indent _ | list _ indent _ | flow indent _ _ _ => indent

end Frame

/-! ## Finished nodes -/

/-- An entry of a flow list that turned out to have no colon is an item. -/
def Slot.asItem (slot : Slot Layout) : Slot Layout :=
  match slot.sep, slot.value with
  | some sep, none =>
    if includes .question slot.start || includes .colon sep then slot
    else
      match slot.key with
      | some key =>
        if key.isInline then { start := slot.start, value := some (key.putBehind sep) }
        else { start := slot.start ++ sep, value := some key }
      | none => { start := slot.start ++ sep }
  | _, _ => slot

/-- The slots of a flow collection when it is finished. -/
def flowSlots (opening : Token) (slots : List (Slot Layout)) : List (Slot Layout) :=
  if opening.kind == .listOpen then slots.map Slot.asItem else slots

/-- The node a frame holds inside a frame of indentation `outer`. -/
def Frame.layout? (outer : Nat) (inDocument : Bool) : Frame → Option Layout
  | document .. | documentEnd _ => none
  | leaf token behind => some (.leaf token behind)
  | block header line text => some (.block outer header line text)
  | map offset indent slots => some (.map offset indent slots.reverse)
  | list offset indent slots => some (.list offset indent slots.reverse)
  | flow indent opening slots closing =>
    some (.flow (if inDocument then 0 else indent) opening (flowSlots opening slots.reverse)
      closing)

/-- Whether a slot holds nothing but trivia, with no comment that is indented as deeply as the
collection. -/
def Slot.isLoose (indent : Nat) (slot : Slot Layout) : Bool :=
  slot.sep.isNone && slot.value.isNone && !slot.start.isEmpty && allTrivia slot.start &&
    (indent = 0 || slot.start.all fun t => t.kind != .comment || t.indent < indent)

/-- Split off what stands in the last slot of a block collection and does not belong to it. -/
def Layout.splitLoose : Layout → Layout × List Token
  | map offset indent slots =>
    match slots.getLast? with
    | some slot =>
      if slot.isLoose indent then (map offset indent slots.dropLast, slot.start)
      else (map offset indent slots, [])
    | none => (map offset indent slots, [])
  | list offset indent slots =>
    match slots.getLast? with
    | some slot =>
      if slot.isLoose indent then (list offset indent slots.dropLast, slot.start)
      else (list offset indent slots, [])
    | none => (list offset indent slots, [])
  | layout => (layout, [])

/-- A slot for tokens that belong to the collection around. -/
def looseSlot (tokens : List Token) : List (Slot Layout) :=
  if tokens.isEmpty then [] else [{ start := tokens }]

/-! ## The stack -/

structure Builder where
  frames : List Frame
  /-- The parts that are finished, the latest one first. -/
  parts : List Part
  /-- Nothing but spaces and indicators has been read of the line. -/
  atLineStart : Bool
  /-- Indentation of the line, as far as it has been read. -/
  indent : Nat
  offset : Nat
  /-- A key stands on the line. -/
  onKeyLine : Bool

namespace Builder

def start : Builder := ⟨[], [], true, 0, 0, false⟩

def push (b : Builder) (frame : Frame) : Builder := { b with frames := frame :: b.frames }

def emit (b : Builder) (part : Part) : Builder := { b with parts := part :: b.parts }

/-- Give a finished node to a slot of a mapping. -/
def giveMap (b : Builder) (offset indent : Nat) (slots : List (Slot Layout))
    (below : List Frame) (layout : Layout) : Builder :=
  let set (slots : List (Slot Layout)) (onKeyLine : Bool) : Builder :=
    { b with frames := .map offset indent slots :: below, onKeyLine }
  match slots with
  | [] => set [{ start := [], key := some layout, sep := some [] }] true
  | slot :: earlier =>
    if slot.value.isSome then
      set ({ start := [], key := some layout, sep := some [] } :: slots) true
    else if slot.sep.isSome then
      let (node, loose) := layout.splitLoose
      set (looseSlot loose ++ { slot with value := some node } :: earlier) b.onKeyLine
    else set ({ slot with key := some layout, sep := some [] } :: earlier) !slot.marked

/-- Give a finished node to a slot of a list. -/
def giveList (b : Builder) (offset indent : Nat) (slots : List (Slot Layout))
    (below : List Frame) (layout : Layout) : Builder :=
  let (node, loose) := layout.splitLoose
  let filled : List (Slot Layout) := match slots with
    | [] => [{ start := [], value := some node }]
    | slot :: earlier =>
      if slot.value.isSome then { start := [], value := some node } :: slots
      else { slot with value := some node } :: earlier
  { b with frames := .list offset indent (looseSlot loose ++ filled) :: below }

/-- Give a finished node to a slot of a flow collection. -/
def giveFlow (slots : List (Slot Layout)) (layout : Layout) : List (Slot Layout) :=
  match slots with
  | [] => [{ start := [], key := some layout, sep := some [] }]
  | slot :: earlier =>
    if slot.value.isSome then { start := [], key := some layout, sep := some [] } :: slots
    else if slot.sep.isSome then { slot with value := some layout } :: earlier
    else { slot with key := some layout, sep := some [] } :: earlier

/-- Give a finished node to the frame on top. A frame that takes none is finished first, at
most `fuel` of them. -/
def give : Nat → Layout → Builder → Builder
  | 0, _, b => b
  | fuel + 1, layout, b =>
    match b.frames with
    | [] => b.emit .stray
    | .document offset start _ behind :: below =>
      let (node, loose) := layout.splitLoose
      let behind := if loose.isEmpty then behind else loose
      { b with frames := .document offset start (some node) behind :: below }
    | .documentEnd behind :: below =>
      give fuel layout ({ b with frames := below }.emit (.documentEnd behind))
    | .leaf token behind :: below =>
      give fuel layout (give fuel (.leaf token behind) { b with frames := below })
    | .block header line text :: below =>
      let stray : Token := ⟨.unknown, [], b.offset, b.indent⟩
      { b with frames := .block header (line ++ [stray]) text :: below }
    | .map offset indent slots :: below => b.giveMap offset indent slots below layout
    | .list offset indent slots :: below => b.giveList offset indent slots below layout
    | .flow indent opening slots closing :: below =>
      { b with frames := .flow indent opening (giveFlow slots layout) closing :: below }

/-- Give a node to the frame on top. -/
def hand (b : Builder) (layout : Layout) : Builder := b.give (b.frames.length + 1) layout

/-- Whether a document is on top. -/
def atDocument (b : Builder) : Bool :=
  match b.frames with
  | .document .. :: _ => true
  | _ => false

/-- Indentation of the frame on top. -/
def outerIndent (b : Builder) : Nat := (b.frames.head?.map Frame.indent).getD 0

/-- Finish the frame on top. -/
def close (b : Builder) : Builder :=
  match b.frames with
  | [] => b.emit .stray
  | .document offset start content behind :: below =>
    { b with frames := below }.emit (.document offset start content behind)
  | .documentEnd behind :: below => { b with frames := below }.emit (.documentEnd behind)
  | frame :: below =>
    let b := { b with frames := below }
    match frame.layout? b.outerIndent b.atDocument with
    | some layout => b.hand layout
    | none => b

/-- Finish all frames, at most `fuel` of them. -/
def closeAll : Nat → Builder → Builder
  | 0, b => b
  | fuel + 1, b => if b.frames.isEmpty then b else closeAll fuel b.close

/-- Finish the frames of flow collections and of what is inside them, the frame on top first,
at most `fuel` of them. -/
def closeFlows : Nat → Builder → Builder
  | 0, b => b
  | fuel + 1, b =>
    let b := b.close
    match b.frames with
    | .flow .. :: _ => closeFlows fuel b
    | _ => b

end Builder

end BlockIr.Yaml
