import BlockIr.Yaml.Layout.Frame
import BlockIr.Yaml.Scan

/-!
# Nesting lexemes

Each lexeme is taken in by the frame on top of the stack, or finishes that frame and is tried
on the one below. What a frame does with a lexeme is one function for each kind of frame; it
gives nothing if the lexeme does not belong to the frame.

* `parts`: the parts of a source.
-/

namespace BlockIr.Yaml

namespace Builder

/-- Replace the frame on top, which has been taken off. -/
def put (b : Builder) (frame : Frame) (below : List Frame) : Builder :=
  { b with frames := frame :: below }

/-! ## Between documents -/

/-- A lexeme outside of all documents. -/
def atStream (b : Builder) (t : Token) : Builder :=
  match t.kind with
  | .directive => b.emit (.directive t.text)
  | .byteOrderMark | .blanks | .comment | .lineBreak => b
  | .contentStart => b.push (.document t.offset [] none [])
  | .documentStart => b.push (.document t.offset [t] none [])
  | _ => b.emit .stray

/-! ## Beginning a node -/

/-- Begin a node that needs nothing from the frame around it. -/
def nodeFrame? (t : Token) : Option Frame :=
  match t.kind with
  | .reference | .plain | .single | .double => some (.leaf t none)
  | .blockHeader => some (.block t [] [])
  | .mapOpen | .listOpen => some (.flow t.indent t [] [])
  | .hyphen => some (.list t.offset t.indent [{ start := [t] }])
  | _ => none

/-- Begin a node inside `parent`. An indicator of a mapping takes the properties of its key
from there. -/
def begin? (b : Builder) (t : Token) (parent : Frame) (below : List Frame) : Option Builder :=
  match t.kind with
  | .question =>
    let (parent, own) := parent.splitKey
    let slot : Slot Layout := { start := own ++ [t], marked := true }
    some ({ b.put parent below with onKeyLine := true }.push (.map t.offset t.indent [slot]))
  | .colon =>
    let (parent, own) := parent.splitKey
    let slot : Slot Layout := { start := own, sep := some [t] }
    some ({ b.put parent below with onKeyLine := true }.push (.map t.offset t.indent [slot]))
  | _ => (nodeFrame? t).map (b.put parent below).push

/-! ## Behind a node -/

/-- Where the tokens behind a finished node go. -/
abbrev Behind := List Token → Frame

/-- A lexeme behind a node. A line break finishes it. -/
def takeBehind? (b : Builder) (t : Token) (behind : List Token) (frame : Behind)
    (below : List Frame) : Option Builder :=
  match t.kind with
  | .comma | .documentStart | .documentEnd | .listClose | .mapClose | .colon => none
  | .lineBreak =>
    some ({ b with onKeyLine := false }.put (frame (behind ++ [t])) below).close
  | _ => some (b.put (frame (behind ++ [t])) below)

/-- A colon behind a node makes it the first key of a mapping. -/
def beginMap (b : Builder) (offset indent : Nat) (key : Layout) (sep : List Token)
    (below : List Frame) : Builder :=
  match below with
  | parent :: rest =>
    let (parent, own) := parent.splitKey
    let slot : Slot Layout := { start := own, key := some key, sep := some sep }
    { b with frames := .map offset indent [slot] :: parent :: rest, onKeyLine := true }
  | [] =>
    let slot : Slot Layout := { start := [], key := some key, sep := some sep }
    { b with frames := [.map offset indent [slot]], onKeyLine := true }

/-- A lexeme behind a scalar or a reference. -/
def atLeaf (b : Builder) (t token : Token) (behind : Option (List Token))
    (below : List Frame) : Option Builder :=
  if t.kind == .colon then
    some (b.beginMap token.offset token.indent (.leaf token none) (behind.getD [] ++ [t]) below)
  else b.takeBehind? t (behind.getD []) (fun behind => .leaf token (some behind)) below

/-! ## Documents -/

/-- A lexeme in a document, outside of its content. -/
def atDocument? (b : Builder) (t : Token) (offset : Nat) (start : List Token)
    (content : Option Layout) (behind : List Token) (below : List Frame) : Option Builder :=
  match content with
  | some _ => b.takeBehind? t behind (.document offset start content) below
  | none =>
    match t.kind with
    | .documentStart =>
      if allTrivia start then some (b.put (.document offset (start ++ [t]) none behind) below)
      else none
    | .anchor | .tag | .blanks | .comment | .lineBreak =>
      some (b.put (.document offset (start ++ [t]) none behind) below)
    | _ => some ((b.begin? t (.document offset start none behind) below).getD (b.emit .stray))

/-- A lexeme on the line that ends a document. -/
def atDocumentEnd (b : Builder) (t : Token) (behind : List Token) (below : List Frame) :
    Builder :=
  match t.kind with
  | .contentStart => b
  | .lineBreak => (b.put (.documentEnd (behind ++ [t])) below).close
  | _ => b.put (.documentEnd (behind ++ [t])) below

/-- A lexeme on the first line of a block scalar, or its text. -/
def atBlock? (b : Builder) (t header : Token) (line : List Token) (text : List Char)
    (below : List Frame) : Option Builder :=
  match t.kind with
  | .blanks | .comment | .lineBreak => some (b.put (.block header (line ++ [t]) text) below)
  | .plain =>
    some ({ b with atLineStart := true, indent := 0 }.put (.block header line t.text) below).close
  | _ => none

/-! ## Trivia in block collections -/

/-- Put trivia behind the value of a slot, if something stands behind it already. -/
def Slot.comment? (slot : Slot Layout) (tokens : List Token) : Option (Slot Layout) :=
  match slot.value with
  | some value => value.behind?.map fun _ => { slot with value := some (value.putBehind tokens) }
  | none => none

/-- Whether a comment is the last that stands behind the value of a slot. -/
def Slot.endsInComment (slot : Slot Layout) : Bool :=
  match slot.value.bind Layout.behind? with
  | some behind => (behind.getLast?.map fun t => t.kind == .comment).getD false
  | none => false

/-- Slots with a line break more. -/
def breakLine (t : Token) (slots : List (Slot Layout)) : List (Slot Layout) :=
  match slots with
  | [] => [{ start := [t] }]
  | slot :: earlier =>
    if slot.value.isSome then
      match Slot.endsInComment slot, Slot.comment? slot [t] with
      | true, some slot => slot :: earlier
      | _, _ => { start := [t] } :: slots
    else
      match slot.sep with
      | some sep => { slot with sep := some (sep ++ [t]) } :: earlier
      | none => { slot with start := slot.start ++ [t] } :: earlier

/-- Slots with blanks or a comment more. A comment that is indented more than its collection
belongs to the value before it. -/
def takeTrivia (t : Token) (indent : Nat) (slots : List (Slot Layout)) : List (Slot Layout) :=
  match slots with
  | [] => [{ start := [t] }]
  | slot :: earlier =>
    if slot.value.isSome then { start := [t] } :: slots
    else
      match slot.sep with
      | some sep => { slot with sep := some (sep ++ [t]) } :: earlier
      | none =>
        let plainSlot := { slot with start := slot.start ++ [t] } :: earlier
        let belongs := t.kind == .comment && indent < t.indent &&
          slot.start.all fun t => t.kind == .lineBreak || t.kind == .blanks
        match belongs, earlier with
        | true, before :: rest =>
          match Slot.comment? before (slot.start ++ [t]) with
          | some before => before :: rest
          | none => plainSlot
        | _, _ => plainSlot

/-! ## Block lists -/

/-- A lexeme in a block list. -/
def atList? (b : Builder) (t : Token) (offset indent : Nat) (slots : List (Slot Layout))
    (below : List Frame) : Option Builder :=
  let set (slots : List (Slot Layout)) : Option Builder :=
    some (b.put (.list offset indent slots) below)
  let other : Option Builder :=
    if indent < t.indent then b.begin? t (.list offset indent slots) below else none
  match slots with
  | [] => other
  | slot :: earlier =>
    match t.kind with
    | .lineBreak => set (breakLine t slots)
    | .blanks | .comment => set (takeTrivia t indent slots)
    | .anchor | .tag =>
      if slot.value.isSome || t.indent ≤ indent then other
      else set ({ slot with start := slot.start ++ [t] } :: earlier)
    | .hyphen =>
      if t.indent != indent then other
      else if slot.value.isSome || includes .hyphen slot.start then
        set ({ start := [t] } :: slots)
      else set ({ slot with start := slot.start ++ [t] } :: earlier)
    | _ => other

/-! ## Block mappings -/

/-- Whether a token between a key and its value shows that the line breaks before it do not
separate entries. -/
def bindsBreaks (indent : Nat) (t : Token) : Bool :=
  match t.kind with
  | .lineBreak | .blanks => false
  | .comment => indent < t.indent
  | _ => true

/-- Split a row of trivia before its second line break. -/
def atSecondBreak (tokens : List Token) : List Token × List Token :=
  let first := tokens.takeWhile fun t => t.kind != .lineBreak
  let rest := tokens.drop (first.length + 1)
  let second := rest.takeWhile fun t => t.kind != .lineBreak
  let kept := tokens.take (first.length + 1 + second.length)
  if second.length < rest.length then (kept, rest.drop second.length) else (tokens, [])

/-- Split the tokens behind a key without a value: what stands behind an empty line belongs to
the next entry. -/
def splitSep (indent : Nat) (sep : List Token) : List Token × List Token :=
  let tail := (sep.reverse.takeWhile fun t => !bindsBreaks indent t).reverse
  let (kept, loose) := atSecondBreak tail
  (sep.take (sep.length - tail.length) ++ kept, loose)

/-- The latest slot of a mapping when a lexeme comes that is not trivia. -/
structure MapSlot where
  slot : Slot Layout
  earlier : List (Slot Layout)
  /-- The lexeme begins a line in the column of the mapping. -/
  atIndent : Bool
  /-- The lexeme begins the next entry. -/
  atNext : Bool
  /-- What stands before the next entry. -/
  start : List Token

/-- Find out where a lexeme stands in a mapping. -/
def mapSlot (b : Builder) (t : Token) (indent : Nat) (slot : Slot Layout)
    (earlier : List (Slot Layout)) : MapSlot :=
  let atIndent := !b.onKeyLine && t.indent == indent
  let atNext := atIndent && (slot.sep.isSome || slot.marked) && t.kind != .hyphen
  match atNext && slot.value.isNone, slot.sep with
  | true, some sep =>
    let (kept, loose) := splitSep indent sep
    ⟨{ slot with sep := some kept }, earlier, atIndent, atNext, loose⟩
  | _, _ => ⟨slot, earlier, atIndent, atNext, []⟩

/-- Slots with one more. -/
def MapSlot.next (m : MapSlot) (slot : Slot Layout) : List (Slot Layout) :=
  slot :: m.slot :: m.earlier

/-- Slots with the latest one replaced. -/
def MapSlot.replace (m : MapSlot) (slot : Slot Layout) : List (Slot Layout) :=
  slot :: m.earlier

/-- Slots with a token more before the key or behind it. -/
def MapSlot.add (m : MapSlot) (t : Token) : List (Slot Layout) :=
  match m.slot.sep with
  | some sep => m.replace { m.slot with sep := some (sep ++ [t]) }
  | none => m.replace { m.slot with start := m.slot.start ++ [t] }

/-- The slots of a mapping after a lexeme, and a node that begins inside the latest one. -/
abbrev MapReaction := List (Slot Layout) × Option Frame

/-- A mapping that begins with a slot. -/
def mapFrame (t : Token) (slot : Slot Layout) : Frame := .map t.offset t.indent [slot]

/-- A colon in a mapping, behind a key that is marked. -/
def colonAfterMark (t : Token) (m : MapSlot) : MapReaction :=
  let slot := m.slot
  match slot.sep with
  | none =>
    if includes .lineBreak slot.start then (m.replace { slot with sep := some [t] }, none)
    else
      let (kept, own) := splitKeyStart slot.start
      (m.replace { slot with start := kept }, some (mapFrame t { start := own, sep := some [t] }))
  | some sep =>
    if slot.value.isSome then (m.next { start := [], sep := some [t] }, none)
    else if includes .colon sep then
      (m.replace slot, some (mapFrame t { start := m.start, sep := some [t] }))
    else if (slot.key.map Layout.isInline).getD false && !includes .lineBreak sep then
      let (kept, own) := splitKeyStart slot.start
      (m.replace { slot with start := kept, key := none, sep := none },
        some (mapFrame t { start := own, key := slot.key, sep := some (sep ++ [t]) }))
    else (m.replace { slot with sep := some (sep ++ m.start ++ [t]) }, none)

/-- A colon in a mapping, behind a key that is not marked. -/
def colonAfterKey (t : Token) (m : MapSlot) : MapReaction :=
  let slot := m.slot
  match slot.sep with
  | none => (m.replace { slot with sep := some [t] }, none)
  | some sep =>
    if slot.value.isSome || m.atNext then (m.next { start := m.start, sep := some [t] }, none)
    else if includes .colon sep then
      (m.replace slot, some (mapFrame t { start := [], sep := some [t] }))
    else (m.replace { slot with sep := some (sep ++ [t]) }, none)

/-- A question mark in a mapping. -/
def questionInMap (t : Token) (m : MapSlot) : MapReaction :=
  let slot := m.slot
  if slot.sep.isNone && !slot.marked then
    (m.replace { slot with start := slot.start ++ [t], marked := true }, none)
  else if m.atNext || slot.value.isSome then
    (m.next { start := m.start ++ [t], marked := true }, none)
  else (m.replace slot, some (mapFrame t { start := [t], marked := true }))

/-- A scalar or a reference in a mapping; the flag says whether it is a key. -/
def leafInMap (t : Token) (m : MapSlot) : MapReaction × Bool :=
  let slot := m.slot
  let leaf : Layout := .leaf t none
  if m.atNext || slot.value.isSome then
    ((m.next { start := m.start, key := some leaf, sep := some [] }, none), true)
  else if slot.sep.isSome then ((m.replace slot, some (.leaf t none)), false)
  else ((m.replace { slot with key := some leaf, sep := some [] }, none), true)

/-- A lexeme in a block mapping. -/
def atMap? (b : Builder) (t : Token) (offset indent : Nat) (slots : List (Slot Layout))
    (below : List Frame) : Option Builder :=
  let set (b : Builder) (slots : List (Slot Layout)) : Builder :=
    b.put (.map offset indent slots) below
  let react (r : MapReaction) (keyLine : Bool) : Option Builder :=
    let b := set { b with onKeyLine := b.onKeyLine || keyLine } r.1
    some ((r.2.map b.push).getD b)
  match slots with
  | [] => none
  | slot :: earlier =>
    match t.kind with
    | .lineBreak => some (set { b with onKeyLine := false } (breakLine t slots))
    | .blanks | .comment => some (set b (takeTrivia t indent slots))
    | kind =>
      if t.indent < indent then none
      else
        let m := b.mapSlot t indent slot earlier
        match kind with
        | .anchor | .tag =>
          if m.atNext || slot.value.isSome then
            react (m.next { start := m.start ++ [t] }, none) true
          else react (m.add t, none) false
        | .question => react (questionInMap t m) true
        | .colon =>
          react (if slot.marked then colonAfterMark t m else colonAfterKey t m) true
        | .reference | .plain | .single | .double =>
          let (r, isKey) := leafInMap t m
          react r isKey
        | .hyphen =>
          let onLine := (slot.sep.map fun sep => !includes .lineBreak sep).getD false
          if !slot.marked && onLine then some ((set b slots).hand (.misplaced t.offset))
          else (nodeFrame? t).map fun frame => (set b slots).push frame
        | _ =>
          (nodeFrame? t).map fun frame =>
            let slots := if m.atIndent then m.next { start := m.start } else m.replace m.slot
            (set b slots).push frame

/-! ## Flow collections -/

/-- Slots of a flow collection with a token more. -/
def addToFlow (t : Token) (slots : List (Slot Layout)) : List (Slot Layout) :=
  match slots with
  | [] => [{ start := [t] }]
  | slot :: earlier =>
    if slot.value.isSome then { start := [t] } :: slots
    else
      match slot.sep with
      | some sep => { slot with sep := some (sep ++ [t]) } :: earlier
      | none => { slot with start := slot.start ++ [t] } :: earlier

/-- Slots of a flow collection with a token that begins an entry. -/
def beginFlowSlot (t : Token) (slots : List (Slot Layout)) : List (Slot Layout) :=
  match slots with
  | [] => [{ start := [t] }]
  | slot :: earlier =>
    if slot.sep.isSome then { start := [t] } :: slots
    else { slot with start := slot.start ++ [t] } :: earlier

/-- Slots of a flow collection with a colon more. -/
def colonInFlow (t : Token) (slots : List (Slot Layout)) : List (Slot Layout) :=
  match slots with
  | [] => [{ start := [], sep := some [t] }]
  | slot :: earlier =>
    if slot.value.isSome then { start := [], sep := some [t] } :: slots
    else
      match slot.sep with
      | some sep => { slot with sep := some (sep ++ [t]) } :: earlier
      | none => { slot with sep := some [t] } :: earlier

/-- A lexeme in a flow collection that is not closed. -/
def inFlow? (b : Builder) (t : Token) (indent : Nat) (opening : Token)
    (slots : List (Slot Layout)) (below : List Frame) : Option Builder :=
  let set (slots : List (Slot Layout)) : Builder := b.put (.flow indent opening slots []) below
  match t.kind with
  | .comma | .question => some (set (beginFlowSlot t slots))
  | .colon => some (set (colonInFlow t slots))
  | .blanks | .comment | .lineBreak | .anchor | .tag => some (set (addToFlow t slots))
  | .reference | .plain | .single | .double =>
    let isValue := match slots with
      | slot :: _ => slot.value.isNone && slot.sep.isSome
      | [] => false
    if isValue then some ((set slots).push (.leaf t none))
    else some (set (giveFlow slots (.leaf t none)))
  | .mapClose | .listClose => some (b.put (.flow indent opening slots [t]) below)
  | _ => (nodeFrame? t).map (set slots).push

/-- A lexeme behind a flow collection. -/
def behindFlow? (b : Builder) (t : Token) (indent : Nat) (opening : Token)
    (slots : List (Slot Layout)) (closing : List Token) (below : List Frame) :
    Option Builder :=
  let ends := match below with
    | .map _ outer (slot :: _) :: _ =>
      (t.kind == LexemeKind.colon && outer = indent) ||
        (t.kind == LexemeKind.lineBreak && slot.sep.isNone)
    | _ => false
  let nested := match below with
    | .flow .. :: _ => true
    | _ => false
  if ends then none
  else if t.kind == LexemeKind.colon && !nested then
    let key : Layout := .flow indent opening (flowSlots opening slots.reverse) (closing.take 1)
    some (b.beginMap opening.offset indent key (closing.drop 1 ++ [t]) below)
  else b.takeBehind? t closing (.flow indent opening slots) below

/-- A lexeme in a flow collection. -/
def atFlow? (b : Builder) (t : Token) (indent : Nat) (opening : Token)
    (slots : List (Slot Layout)) (closing : List Token) (below : List Frame) :
    Option Builder :=
  if t.kind == .flowCut then some (b.closeFlows b.frames.length)
  else if closing.isEmpty then b.inFlow? t indent opening slots below
  else b.behindFlow? t indent opening slots closing below

/-! ## All lexemes -/

/-- What a frame does with a lexeme. -/
def accept? (b : Builder) (t : Token) (frame : Frame) (below : List Frame) : Option Builder :=
  match frame with
  | .document offset start content behind =>
    b.atDocument? t offset start content behind below
  | .documentEnd behind => some (b.atDocumentEnd t behind below)
  | .leaf token behind => b.atLeaf t token behind below
  | .block header line text => b.atBlock? t header line text below
  | .map offset indent slots => b.atMap? t offset indent slots below
  | .list offset indent slots => b.atList? t offset indent slots below
  | .flow indent opening slots closing => b.atFlow? t indent opening slots closing below

/-- Find the frame that takes a lexeme; at most `fuel` are finished. -/
def step : Nat → Token → Builder → Builder
  | 0, _, b => b
  | fuel + 1, t, b =>
    match b.frames with
    | [] =>
      if t.kind == .documentEnd then b.push (.documentEnd []) else b.atStream t
    | frame :: below =>
      let isEnd := match frame with
        | .documentEnd _ => true
        | _ => false
      if t.kind == .documentEnd && !isEnd then
        (b.closeAll (b.frames.length + 1)).push (.documentEnd [])
      else
        match b.accept? t frame below with
        | some b => b
        | none => step fuel t b.close

/-- Move on behind a lexeme. -/
def advance (b : Builder) (lexeme : Lexeme) : Builder :=
  let offset := b.offset + Text.unitsOf lexeme.text
  match lexeme.kind with
  | .contentStart | .flowCut => b
  | .plain | .unknown => { b with offset }
  | .lineBreak => { b with offset, atLineStart := true, indent := 0 }
  | .blanks =>
    let counts := b.atLineStart && lexeme.text.head? == some ' '
    { b with offset, indent := if counts then b.indent + lexeme.text.length else b.indent }
  | .question | .colon | .hyphen =>
    { b with offset, indent := if b.atLineStart then b.indent + 1 else b.indent }
  | _ => { b with offset, atLineStart := false }

/-- Take in a lexeme. -/
def next (b : Builder) (lexeme : Lexeme) : Builder :=
  let b := if lexeme.kind == .plain then { b with atLineStart := false } else b
  let t : Token := ⟨lexeme.kind, lexeme.text, b.offset, b.indent⟩
  let b :=
    if lexeme.kind == .unknown then b.hand (.misplaced b.offset)
    else b.step (b.frames.length + 1) t
  b.advance lexeme

end Builder

/-- The parts of a source. -/
def parts (source : List Char) : List Part :=
  let b := (lexemes source).foldl Builder.next .start
  (b.closeAll (b.frames.length + 1)).parts.reverse

end BlockIr.Yaml
