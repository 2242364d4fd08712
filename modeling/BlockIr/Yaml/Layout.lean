import BlockIr.Text.Width
import BlockIr.Yaml.Lexeme

/-!
# Layout

The layout of a source is the nesting of its lexemes, before anything is known about values: it
says which lexeme belongs to which entry of which collection, and keeps them all. A layout may
break the rules of the format; those are checked when a tree is made of it.
-/

namespace BlockIr.Yaml

/-- A lexeme in its place. -/
structure Token where
  kind : LexemeKind
  text : List Char
  /-- UTF-16 code units before it. -/
  offset : Nat
  /-- Indentation of its line, as far as the line has been read. -/
  indent : Nat

/-- The place behind a token. -/
def Token.stop (t : Token) : Nat := t.offset + Text.unitsOf t.text

/-- Whether a token of a kind is among some. -/
def includes (kind : LexemeKind) (tokens : List Token) : Bool :=
  tokens.any fun t => t.kind == kind

/-- Whether tokens say nothing about the content. -/
def allTrivia (tokens : List Token) : Bool := tokens.all fun t => t.kind.isTrivia

/-- An entry of a collection: what stands before its key, the key, what stands between the key
and the value, and the value. An item of a list has no key. Until a key or a colon has been
met there is no separator. -/
structure Slot (α : Type) where
  start : List Token
  key : Option α := none
  sep : Option (List Token) := none
  value : Option α := none
  /-- The key has a question mark. -/
  marked : Bool := false

/-- The nesting of the lexemes of a node. -/
inductive Layout where
  /-- A reference or a scalar, and what stands behind it, if anything does. -/
  | leaf (token : Token) (behind : Option (List Token))
  /-- A block scalar: the indentation around it, its header, the rest of the line of the
  header, and its text. -/
  | block (indent : Nat) (header : Token) (line : List Token) (text : List Char)
  | map (offset indent : Nat) (slots : List (Slot Layout))
  | list (offset indent : Nat) (slots : List (Slot Layout))
  /-- A flow collection: its bracket, its entries, and what closes it with all behind that. -/
  | flow (indent : Nat) (opening : Token) (slots : List (Slot Layout)) (closing : List Token)
  /-- Something that cannot stand where it does. -/
  | misplaced (offset : Nat)

namespace Layout

/-- A scalar of one line or more, or a flow collection. -/
def isInline : Layout → Bool
  | leaf .. | flow .. => true
  | _ => false

/-- A collection that is laid out by indentation. -/
def isBlockCollection : Layout → Bool
  | map .. | list .. => true
  | _ => false

def isBlockMap : Layout → Bool
  | map .. => true
  | _ => false

def isBlockList : Layout → Bool
  | list .. => true
  | _ => false

/-- What stands behind a node on its line, if that is known. -/
def behind? : Layout → Option (List Token)
  | leaf _ behind => behind
  | flow _ _ _ closing => some closing
  | _ => none

/-- Put tokens behind a node. -/
def putBehind (tokens : List Token) : Layout → Layout
  | leaf token behind => leaf token (some (behind.getD [] ++ tokens))
  | flow indent opening slots closing => flow indent opening slots (closing ++ tokens)
  | layout => layout

end Layout

/-- A part of a source. -/
inductive Part where
  | directive (line : List Char)
  /-- A document: what stands before its content, the content, and what stands behind. -/
  | document (offset : Nat) (start : List Token) (content : Option Layout) (behind : List Token)
  /-- The end of a document is marked. -/
  | documentEnd (behind : List Token)
  /-- Something that stands in no document. -/
  | stray

end BlockIr.Yaml
