import BlockIr.Yaml.Folding
import BlockIr.Yaml.Scalar

/-!
# Quoted scalars

In single quotes a quote is written twice and nothing else is special. In double quotes a
backslash starts an escape, and a backslash before a line break joins two lines. Both fold
line breaks; blanks written as escapes are not dropped.

* `singleText?`, `doubleText?`: the text of a quoted scalar, from its quotes. A scalar is closed
  if its last character is a quote, even one that is doubled or escaped.
-/

namespace BlockIr.Yaml

/-- Write doubled single quotes once. -/
def singleQuotes : List Char → List Char
  | '\'' :: '\'' :: rest => '\'' :: singleQuotes rest
  | c :: rest => c :: singleQuotes rest
  | [] => []

/-- A part of a double-quoted scalar. -/
inductive QuotedPart where
  | char (c : Char)
  /-- Half of a surrogate pair, by its code. -/
  | half (code : Nat)
  | blank (c : Char)
  | lineBreak
  /-- An escaped line break. -/
  | joint

/-- Escapes of one character. -/
def escape? : Char → Option Char
  | '0' => some '\x00'
  | 'a' => some '\x07'
  | 'b' => some '\x08'
  | 'e' => some '\x1b'
  | 'f' => some '\x0c'
  | 'n' => some '\n'
  | 'r' => some '\r'
  | 't' => some '\t'
  | 'v' => some '\x0b'
  | 'N' => some '\u0085'
  | '_' => some '\u00a0'
  | 'L' => some '\u2028'
  | 'P' => some '\u2029'
  | ' ' => some ' '
  | '"' => some '"'
  | '/' => some '/'
  | '\\' => some '\\'
  | '\t' => some '\t'
  | _ => none

/-- Value of a row of hexadecimal digits. -/
def hex? (cs : List Char) : Option Nat := inBase? 16 hexDigit? cs

/-- Whether a code is half of a surrogate pair. -/
def isHalf (code : Nat) : Bool := 0xd800 ≤ code && code ≤ 0xdfff

/-- The part a character code stands for. -/
def ofCode? (code : Nat) : Option QuotedPart :=
  if isHalf code then some (.half code)
  else if code ≤ 0x10ffff then some (.char (Char.ofNat code))
  else none

/-- Put the part with a code before others. -/
def codePart (code : Option Nat) (rest : Option (List QuotedPart)) :
    Option (List QuotedPart) := do
  let c ← ofCode? (← code)
  return c :: (← rest)

/-- Read the escapes of a double-quoted scalar, up to its last character. An escape may reach
over that. -/
def quotedParts : List Char → Option (List QuotedPart)
  | [] | [_] => some []
  | '\n' :: rest => (quotedParts rest).map (.lineBreak :: ·)
  | ' ' :: rest => (quotedParts rest).map (.blank ' ' :: ·)
  | '\t' :: rest => (quotedParts rest).map (.blank '\t' :: ·)
  | '\\' :: '\n' :: rest => (quotedParts rest).map (.joint :: ·)
  | '\\' :: 'x' :: a :: b :: rest => codePart (hex? [a, b]) (quotedParts rest)
  | '\\' :: 'u' :: a :: b :: c :: d :: rest =>
    codePart (hex? [a, b, c, d]) (quotedParts rest)
  | '\\' :: 'U' :: a :: b :: c :: d :: e :: f :: g :: h :: rest =>
    codePart (hex? [a, b, c, d, e, f, g, h]) (quotedParts rest)
  | '\\' :: c :: rest => do
    let c ← escape? c
    return .char c :: (← quotedParts rest)
  | c :: rest => (quotedParts rest).map (.char c :: ·)

/-- Join the halves of surrogate pairs; a half on its own has no character. -/
def joinHalves : List QuotedPart → List QuotedPart
  | .half high :: .half low :: rest =>
    if high < 0xdc00 ∧ 0xdc00 ≤ low then
      .char (Char.ofNat (0x10000 + (high - 0xd800) * 0x400 + (low - 0xdc00))) ::
        joinHalves rest
    else .char '\ufffd' :: joinHalves (.half low :: rest)
  | .half _ :: rest => .char '\ufffd' :: joinHalves rest
  | part :: rest => part :: joinHalves rest
  | [] => []

/-- What stands before the part that is folded next. -/
inductive FoldState where
  /-- Text, then these blanks, reversed. -/
  | text (blanks : List Char)
  /-- One more line break than this. -/
  | breaks (extra : Nat)
  | joined

/-- The text a state contributes once content follows. -/
def FoldState.flush : FoldState → List Char
  | .text blanks => blanks.reverse
  | .breaks 0 => [' ']
  | .breaks extra => List.replicate extra '\n'
  | .joined => []

/-- Fold the line breaks of a double-quoted scalar. -/
def foldParts : FoldState → List QuotedPart → List Char
  | state, [] => state.flush
  | state, .char c :: rest => state.flush ++ c :: foldParts (.text []) rest
  | state, .half _ :: rest => foldParts state rest
  | .text blanks, .blank c :: rest => foldParts (.text (c :: blanks)) rest
  | state, .blank _ :: rest => foldParts state rest
  | .breaks extra, .lineBreak :: rest => foldParts (.breaks (extra + 1)) rest
  | _, .lineBreak :: rest => foldParts (.breaks 0) rest
  | state, .joint :: rest => state.flush ++ foldParts .joined rest

/-- Whether a quoted scalar ends in its quote. -/
def isClosed (quote : Char) (token : List Char) : Bool :=
  1 < token.length && token.getLast? == some quote

/-- The text of a single-quoted scalar. -/
def singleText? (token : List Char) : Option (List Char) :=
  if isClosed '\'' token then some (singleQuotes (foldLines (token.drop 1).dropLast)) else none

/-- The text of a double-quoted scalar. -/
def doubleText? (token : List Char) : Option (List Char) :=
  if isClosed '"' token then
    (quotedParts (token.drop 1)).map fun parts => foldParts (.text []) (joinHalves parts)
  else none

example : singleText? "'it''".toList = some "it'".toList := by decide
example : doubleText? "\"a\\\"".toList = some "a\"".toList := by decide

end BlockIr.Yaml
