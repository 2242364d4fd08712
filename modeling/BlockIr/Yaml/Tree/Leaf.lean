import BlockIr.Yaml.BlockScalar
import BlockIr.Yaml.Properties
import BlockIr.Yaml.Quoted
import BlockIr.Yaml.Tree

/-!
# Scalars and references of a tree

A scalar is read from its token and its tag. Where a node is missing, an empty plain scalar
stands for it.
-/

namespace BlockIr.Yaml

/-- A node of a tree and the place behind it, with the comments that follow it. -/
structure Placed where
  tree : Tree
  stop : Nat

/-- Change the node that is placed. -/
def Placed.map (f : Tree → Tree) (p : Placed) : Placed := { p with tree := f p.tree }

/-- What holds around a node. -/
structure Context where
  directives : Directives
  /-- The node is a key. -/
  atKey : Bool
  /-- The node is in a collection. -/
  nested : Bool

/-- Characters that no plain scalar starts with. -/
def isReserved (c : Char) : Bool :=
  c == '\t' || c == ',' || c == '%' || c == '@' || c == '\x60' || c == '|' || c == '>'

/-- The text of a plain scalar. -/
def plainText? (token : List Char) : Option (List Char) :=
  if (token.head?.map isReserved).getD false then none else some (foldLines token)

/-- The name of the tag of a node; an empty one is none. -/
def tagName? (d : Directives) (p : Properties) : Option (Option String) :=
  match p.tag with
  | none => some none
  | some t => (d.expand? t.text).map fun name => if name = "" then none else some name

/-- The anchor of a node; it has a name. -/
def anchorName? (p : Properties) : Option (Option String) :=
  match p.anchor with
  | none => some none
  | some t =>
    match t.text.drop 1 with
    | [] => none
    | name => some (some (String.ofList name))

/-- The meaning of a scalar of a style. -/
def interpret? (ctx : Context) (style : Style) (tag : Option String) (text : List Char) :
    Option Interpretation :=
  match tag, style with
  | some "!", _ => some (textual text)
  | some name, _ => tagged? ctx.directives.version name text
  | none, .plain => plain? ctx.directives.version ctx.atKey text
  | none, _ => some (textual text)

/-- A scalar with its properties. -/
def leaf? (ctx : Context) (p : Properties) (style : Style) (text : List Char)
    (comment : String) : Option Tree := do
  let tag ← tagName? ctx.directives p
  let anchor ← anchorName? p
  let i ← interpret? ctx style tag text
  let leaf : Leaf := ⟨i.value, some (String.ofList text), some style, i.form, i.fractionDigits⟩
  return .leaf { anchor, tag, comment } leaf

/-- The text of a scalar and its style. -/
def tokenText? (t : Token) : Option (Style × List Char) :=
  match t.kind with
  | .single => (singleText? t.text).map fun text => (.single, text)
  | .double => (doubleText? t.text).map fun text => (.double, text)
  | .plain => (plainText? t.text).map fun text => (.plain, text)
  | _ => none

/-- The scalar or the reference of a token. -/
def ofToken? (ctx : Context) (p : Properties) (t : Token) (behind : Option (List Token)) :
    Option Placed := do
  let e ← ending? t.stop behind
  if t.kind == .reference then
    let name := t.text.drop 1
    if name.isEmpty || p.anchor.isSome || p.tag.isSome then none
    else return ⟨.reference { comment := e.comment } (String.ofList name), e.stop⟩
  else
    let (style, text) ← tokenText? t
    return ⟨← leaf? ctx p style text e.comment, e.stop⟩

/-- The block scalar of a header. -/
def ofBlock? (ctx : Context) (p : Properties) (indent : Nat) (header : Token)
    (line : List Token) (text : List Char) : Option Placed := do
  let h ← BlockHeader.read? header.text
  let comment ← headerComment? false "" line
  let content ← blockText? h indent ctx.nested (blockLines text)
  let headerStop := (line.getLast?.map Token.stop).getD header.stop
  let style := if h.folded then Style.folded else .literal
  return ⟨← leaf? ctx p style content comment, headerStop + Text.unitsOf text⟩

/-! ## Missing nodes -/

/-- The place of a missing node behind some tokens: before the line breaks and comments at
their end, but behind the blanks there. -/
def missingPlace (offset : Nat) (before : List Token) : Nat :=
  let tail := (before.reverse.takeWhile fun t => t.kind.isTrivia).reverse
  let length (tokens : List Token) : Nat :=
    tokens.foldl (fun n t => n + Text.unitsOf t.text) 0
  let start := offset - length tail
  if tail.length = before.length then start
  else start + length (tail.takeWhile fun t => t.kind == .blanks)

/-- The node that stands for a missing one behind some tokens. -/
def missing? (ctx : Context) (p : Properties) (offset : Nat) (before : List Token) :
    Option Placed := do
  let tree ← leaf? ctx p .plain [] p.comment
  let stop := if p.comment = "" then missingPlace offset before else p.stop
  return ⟨tree.decorate fun d => { d with spaceBefore := p.spaceBefore }, stop⟩

end BlockIr.Yaml
