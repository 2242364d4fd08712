import BlockIr.Yaml.Character

/-!
# Lexemes

A source is a row of lexemes. Most of them spell out what they are; two have no text. The kind
of a lexeme is read off its text, plain scalars apart, which may look like anything.
-/

namespace BlockIr.Yaml

inductive LexemeKind where
  | byteOrderMark
  /-- Content begins; this has no text. -/
  | contentStart
  /-- All open flow collections are cut off, as the next line belongs to none of them; this has
  no text. -/
  | flowCut
  | documentStart | documentEnd
  | lineBreak | blanks | comment | directive
  | hyphen | question | colon | comma
  | mapOpen | mapClose | listOpen | listClose
  | anchor | tag | reference
  | plain | single | double
  /-- The mark of a block scalar with what follows it directly. -/
  | blockHeader
  | unknown
  deriving DecidableEq, Repr

structure Lexeme where
  kind : LexemeKind
  text : List Char

namespace LexemeKind

/-- The kind a text spells by its first character. -/
def ofFirst : Char → LexemeKind
  | ' ' | '\t' => blanks
  | '#' => comment
  | '%' => directive
  | '*' => reference
  | '&' => anchor
  | '!' => tag
  | '\'' => single
  | '"' => double
  | '|' | '>' => blockHeader
  | _ => unknown

/-- The kind a text spells. -/
def ofText : List Char → LexemeKind
  | [] | ['\n'] => lineBreak
  | ['\ufeff'] => byteOrderMark
  | ['-', '-', '-'] => documentStart
  | ['.', '.', '.'] => documentEnd
  | ['-'] => hyphen
  | ['?'] => question
  | [':'] => colon
  | [','] => comma
  | ['\x7b'] => mapOpen
  | ['\x7d'] => mapClose
  | ['['] => listOpen
  | [']'] => listClose
  | c :: _ => ofFirst c

/-- Lexemes that say nothing about the content. -/
def isTrivia : LexemeKind → Bool
  | blanks | comment | lineBreak => true
  | _ => false

end LexemeKind

end BlockIr.Yaml
