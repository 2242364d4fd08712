import BlockIr.Yaml.Layout
import BlockIr.Yaml.Tag

/-!
# What precedes a node

Before a node stand its indicator, an anchor and a tag, comments and line breaks. An anchor and
a tag are separated from what follows by white space, a comment from what precedes it, and no
tab stands where indentation is meant.

* `properties?`: what precedes a node, unless it breaks a rule.
-/

namespace BlockIr.Yaml

/-- What follows the tokens before a node. -/
inductive Ahead where
  | nothing
  | token (t : Token)
  | node (layout : Layout)

namespace Ahead

/-- What follows is this node, or else the first of these tokens. -/
def of (node : Option Layout) (tokens : Option (List Token)) : Ahead :=
  match node, tokens with
  | some layout, _ => .node layout
  | none, some (t :: _) => .token t
  | none, _ => .nothing

/-- Whether an anchor or a tag may stand directly before what follows. -/
def separates : Ahead → Bool
  | nothing => true
  | token t => t.kind == .blanks || t.kind == .lineBreak || t.kind == .comma
  | node (.leaf t _) => t.kind == .plain && t.text.isEmpty
  | node _ => false

def isFlow : Ahead → Bool
  | node (.flow ..) => true
  | _ => false

def isBlockCollection : Ahead → Bool
  | node layout => layout.isBlockCollection
  | _ => false

end Ahead

/-- Where a node stands. -/
structure Site where
  /-- In a flow collection. -/
  inFlow : Bool
  /-- The indicator that belongs to the node. -/
  indicator : LexemeKind
  ahead : Ahead
  /-- The place behind everything before the tokens. -/
  offset : Nat
  indent : Nat
  /-- The tokens begin a line. -/
  atLineStart : Bool

structure Properties where
  comma : Bool := false
  /-- The indicator, if it is there. -/
  found : Option Token := none
  /-- An empty line stands before the node. -/
  spaceBefore : Bool := false
  comment : String := ""
  hasBreak : Bool := false
  anchor : Option Token := none
  tag : Option Token := none
  /-- The last line break behind an anchor or a tag. -/
  breakAfter : Option Token := none
  /-- The place of the anchor or the tag, or else of the node. -/
  start : Nat := 0
  /-- The place behind the tokens. -/
  stop : Nat := 0

/-- What has been read before a node. -/
structure PropertyReader where
  found : Properties
  /-- Nothing but white space has been read of the line. -/
  atLineStart : Bool
  /-- White space stands before the next token. -/
  spaced : Bool
  /-- White space has to follow. -/
  needsSpace : Bool := false
  /-- The last token, if it is white space with a tab. -/
  tab : Option Token := none
  /-- Line breaks behind the last comment. -/
  commentGap : String := ""
  start : Option Nat := none

/-- The text of a comment. -/
def commentText (t : Token) : String :=
  match t.text.drop 1 with
  | [] => " "
  | cs => String.ofList cs

namespace PropertyReader

/-- Read a comment. -/
def readComment? (r : PropertyReader) (t : Token) : Option PropertyReader :=
  if !r.spaced then none
  else
    let comment :=
      if r.found.comment = "" then commentText t
      else r.found.comment ++ r.commentGap ++ commentText t
    some { r with found := { r.found with comment }, commentGap := "", atLineStart := false }

/-- Read a line break. -/
def readBreak (r : PropertyReader) (site : Site) (t : Token) : PropertyReader :=
  let p := r.found
  let r :=
    if !r.atLineStart then { r with commentGap := r.commentGap ++ "\n" }
    else if p.comment != "" then { r with found := { p with comment := p.comment ++ "\n" } }
    else if p.found.isNone || site.indicator != .hyphen then
      { r with found := { p with spaceBefore := true } }
    else r
  let breakAfter :=
    if p.anchor.isSome || p.tag.isSome then some t else p.breakAfter
  { r with found := { r.found with hasBreak := true, breakAfter }, atLineStart := true,
           spaced := true }

/-- Read an anchor or a tag. -/
def readProperty (r : PropertyReader) (t : Token) (found : Properties) : PropertyReader :=
  { r with found, start := r.start <|> some t.offset, atLineStart := false, spaced := false,
           needsSpace := true }

/-- Read a token. -/
def read? (site : Site) (r : PropertyReader) (t : Token) : Option PropertyReader :=
  let glued := r.needsSpace && t.kind != .blanks && t.kind != .lineBreak && t.kind != .comma
  let tabbed := r.tab.isSome && r.atLineStart && t.kind != .comment && t.kind != .lineBreak
  if glued || tabbed then none
  else
    let r := { r with needsSpace := false, tab := none }
    let p := r.found
    if t.kind == site.indicator then
      if p.anchor.isSome || p.tag.isSome || p.found.isSome then none
      else
        let atLineStart := t.kind == .hyphen || t.kind == .question
        some { r with found := { p with found := some t }, atLineStart, spaced := false }
    else
      match t.kind with
      | .blanks =>
        let counts := !site.inFlow &&
          (site.indicator != .documentStart || !site.ahead.isFlow) && t.text.contains '\t'
        some { r with tab := if counts then some t else none, spaced := true }
      | .comment => r.readComment? t
      | .lineBreak => some (r.readBreak site t)
      | .anchor =>
        if p.anchor.isSome then none else some (r.readProperty t { p with anchor := some t })
      | .tag => if p.tag.isSome then none else some (r.readProperty t { p with tag := some t })
      | .comma =>
        if site.inFlow && !p.comma then
          some { r with found := { p with comma := true }, atLineStart := false,
                        spaced := false }
        else none
      | _ => none

/-- What has been read, at the end of the tokens. -/
def finish? (r : PropertyReader) (site : Site) (stop : Nat) : Option Properties :=
  let tabbed := match r.tab with
    | some tab => (r.atLineStart && tab.indent ≤ site.indent) || site.ahead.isBlockCollection
    | none => false
  if (r.needsSpace && !site.ahead.separates) || tabbed then none
  else some { r.found with start := r.start.getD stop, stop }

end PropertyReader

/-- What precedes a node. -/
def properties? (site : Site) (tokens : List Token) : Option Properties := do
  let start : PropertyReader :=
    { found := {}, atLineStart := site.atLineStart, spaced := site.atLineStart }
  let r ← tokens.foldlM (PropertyReader.read? site) start
  r.finish? site ((tokens.getLast?.map Token.stop).getD site.offset)

/-! ## What follows a node -/

/-- A comment behind a node, and the place behind everything there. -/
structure Ending where
  comment : String
  stop : Nat

/-- Read the tokens behind a node: nothing but white space and comments. A comment is separated
from the node, if `spaced` does not hold. -/
def endingFrom? (spaced : Bool) (gap : String) (e : Ending) : List Token → Option Ending
  | [] => some e
  | t :: rest =>
    let stop := e.stop + Text.unitsOf t.text
    match t.kind with
    | .blanks => endingFrom? true gap { e with stop } rest
    | .comment =>
      if !spaced then none
      else
        let comment := if e.comment = "" then commentText t else e.comment ++ gap ++ commentText t
        endingFrom? true "" ⟨comment, stop⟩ rest
    | .lineBreak =>
      endingFrom? true (if e.comment = "" then gap else gap ++ "\n") { e with stop } rest
    | _ => none

/-- What follows a node that ends at `stop`. -/
def ending? (stop : Nat) (tokens : Option (List Token)) : Option Ending :=
  endingFrom? false "" ⟨"", stop⟩ (tokens.getD [])

end BlockIr.Yaml
