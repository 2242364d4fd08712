import BlockIr.Yaml.Extent
import BlockIr.Yaml.Lexeme

/-!
# Splitting a source into lexemes

The scanner is between documents, in a document, or in a flow collection. It keeps two counts:
the indentation that the content of the next line has to have so that it goes on with a scalar
of this one, and the column at which the indicators of the current line have led to.

* `lexemes`: the lexemes of a source. Their texts, put together, are the source.
-/

namespace BlockIr.Yaml

/-- What a scanner is in. -/
inductive ScanMode where
  | stream | document | flow

structure Scanner where
  rest : List Char
  /-- The lexemes so far, the latest one first. -/
  found : List Lexeme
  /-- Number of flow collections that are open. -/
  depth : Nat
  /-- A quoted scalar or a flow collection stands directly before, so that a colon needs no
  white space behind it. -/
  afterKey : Bool
  /-- Least indentation of a line that goes on with a scalar. -/
  minIndent : Nat
  /-- Column that the indicators of the current line have led to. -/
  column : Nat

namespace Scanner

def start (source : List Char) : Scanner := ⟨source, [], 0, false, 0, 0⟩

def inFlow (s : Scanner) : Bool := 0 < s.depth

/-- The mode of a scanner that is in a document. -/
def mode (s : Scanner) : ScanMode := if s.inFlow then .flow else .document

/-! ## Emitting lexemes -/

/-- Emit a lexeme without text. -/
def mark (s : Scanner) (kind : LexemeKind) : Scanner :=
  { s with found := ⟨kind, []⟩ :: s.found }

/-- Emit the next `n` characters, if any, as the lexeme that they spell. -/
def take (s : Scanner) (n : Nat) : Scanner :=
  match s.rest.take n with
  | [] => s
  | text => { s with rest := s.rest.drop n, found := ⟨.ofText text, text⟩ :: s.found }

/-- Emit the characters as long as `p` holds. -/
def takeWhile (s : Scanner) (p : Char → Bool) : Scanner := s.take (s.rest.takeWhile p).length

/-- Emit a plain scalar, which may be empty. -/
def takePlain (s : Scanner) (text rest : List Char) : Scanner :=
  { s with rest, found := ⟨.plain, text⟩ :: s.found }

def takeSpaces (s : Scanner) : Scanner := s.takeWhile (· == ' ')

def takeBlanks (s : Scanner) : Scanner := s.takeWhile isBlank

/-- Emit the rest of the line. -/
def takeLine (s : Scanner) : Scanner := s.takeWhile (· != '\n')

/-- Emit the line break, if the line ends here. -/
def takeBreak (s : Scanner) : Scanner := if s.rest.head? == some '\n' then s.take 1 else s

/-- Number of characters emitted since `before`. -/
def since (s before : Scanner) : Nat := before.rest.length - s.rest.length

/-! ## Lines -/

/-- Characters that are an indicator when they stand alone. -/
def isIndicator (c : Char) : Bool := c == '-' || c == '?' || c == ':'

/-- Emit the indicators at the start of a line, at most `fuel` of them. Each one moves the
column of what follows. -/
def leadingIndicators : Nat → Scanner → Scanner
  | 0, s => s
  | fuel + 1, s =>
    match s.rest with
    | c :: rest =>
      if isIndicator c && atGap rest then
        let next := (s.take 1).takeBlanks
        leadingIndicators fuel
          { next with minIndent := s.column + 1, column := s.column + next.since s }
      else s
    | [] => s

/-- Whether the second UTF-16 code unit of a text is not white space. -/
def hasSecond : List Char → Bool
  | c :: rest => 0xffff < c.toNat || !atGap rest
  | [] => false

/-- Read the start of a line up to its content. -/
def lineStart (s : Scanner) : ScanMode × Scanner :=
  if atMarker s.rest then
    let next : Scanner := { s.take 3 with minIndent := 0, column := 0 }
    (if s.rest.head? == some '-' then .document else .stream, next)
  else
    let next := s.takeSpaces
    let column := next.since s
    let minIndent :=
      if column < s.minIndent && hasSecond next.rest then column else s.minIndent
    (.document, leadingIndicators next.rest.length { next with minIndent, column })

/-! ## Between documents -/

/-- A line up to its comment, which needs a blank before it. `before` is the character before
the line. -/
def beforeComment (before : Char) : List Char → List Char
  | [] => []
  | c :: rest => if c == '#' && isBlank before then [] else c :: beforeComment c rest

/-- Length of a directive; blanks at its end do not count. -/
def directiveLength (line : List Char) : Nat :=
  ((beforeComment '%' line).reverse.dropWhile isBlank).length

/-- Read one line between documents, or begin a document. -/
def stream (s : Scanner) : ScanMode × Scanner :=
  let s := if s.rest.head? == some '\ufeff' then s.take 1 else s
  if s.rest.head? == some '%' then
    let line := s.rest.takeWhile (· != '\n')
    (.stream, (s.take (directiveLength line)).takeBlanks.takeLine)
  else
    let ahead := s.rest.dropWhile isBlank
    if atBreak ahead || ahead.head? == some '#' then (.stream, s.takeBlanks.takeLine.takeBreak)
    else (s.mark .contentStart).lineStart

/-! ## In documents -/

/-- Number of characters that belong to a tag, escapes included. -/
def tagChars : List Char → Nat
  | '%' :: a :: b :: rest =>
    if (hexDigit? a).isSome && (hexDigit? b).isSome then 3 + tagChars rest else 0
  | c :: rest => if isTagChar c then 1 + tagChars rest else 0
  | [] => 0

/-- Length of a tag: up to the closing bracket where it is written out, and otherwise as far
as its characters and escapes go. -/
def tagLength : List Char → Nat
  | '!' :: '<' :: rest =>
    let body := rest.takeWhile fun c => !isGap c && c != '>'
    2 + body.length + if (rest.drop body.length).head? == some '>' then 1 else 0
  | '!' :: rest => 1 + tagChars rest
  | _ => 0

/-- Emit anchors, tags and indicators that stand alone, at most `fuel` of them. -/
def indicators : Nat → Scanner → Scanner
  | 0, s => s
  | fuel + 1, s =>
    match s.rest with
    | '!' :: _ => indicators fuel (s.take (tagLength s.rest)).takeBlanks
    | '&' :: _ => indicators fuel (s.takeWhile isNameChar).takeBlanks
    | c :: rest =>
      if isIndicator c && (atGap rest || (s.inFlow && atFlowIndicator rest)) then
        let s :=
          if s.inFlow then { s with afterKey := false } else { s with minIndent := s.column + 1 }
        indicators fuel (s.take 1).takeBlanks
      else s
    | [] => s

/-- Emit a plain scalar. -/
def plain (s : Scanner) : Scanner :=
  let (text, rest) := plainExtent s.inFlow s.minIndent s.rest
  s.takePlain text rest

/-- Emit a quoted scalar. -/
def quoted (s : Scanner) : Scanner := s.take (quotedExtent s.minIndent s.rest).1.length

/-- Emit a block scalar: what its first line holds, and then its text. -/
def block (s : Scanner) : ScanMode × Scanner :=
  let marks := BlockMarks.read ⟨none, false⟩ (s.rest.drop 1)
  let below := (s.takeWhile fun c => !isGap c && c != '#').takeBlanks.takeLine.takeBreak
  let extent := blockExtent marks s.minIndent below.rest
  ({ below with minIndent := extent.indent }.takePlain extent.text extent.rest).lineStart

/-- Read on in a document, outside of flow collections. -/
def document (s : Scanner) : ScanMode × Scanner :=
  let s := s.takeBlanks
  let s := s.indicators s.rest.length
  match s.rest with
  | [] | '\n' :: _ => s.takeBreak.lineStart
  | '#' :: _ => s.takeLine.takeBreak.lineStart
  | '[' :: _ | '\x7b' :: _ => (.flow, { s.take 1 with afterKey := false, depth := 1 })
  | ']' :: _ | '\x7d' :: _ => (.document, s.take 1)
  | '*' :: _ => (.document, s.takeWhile isNameChar)
  | '\'' :: _ | '"' :: _ => (.document, s.quoted)
  | '|' :: _ | '>' :: _ => s.block
  | _ => (.document, s.plain)

/-! ## In flow collections -/

/-- Emit white space over lines, at most `fuel` pieces of it, with the indentation of the last
line if there is a line break. -/
def flowGap : Nat → Option Nat → Scanner → Option Nat × Scanner
  | 0, indent, s => (indent, s)
  | fuel + 1, indent, s =>
    match s.rest with
    | '\n' :: _ =>
      let line := s.takeBreak
      let content := line.takeSpaces
      let column := content.since line
      flowGap fuel (some column) { content with column }.takeBlanks
    | c :: _ => if isBlank c then flowGap fuel indent s.takeBlanks else (indent, s)
    | [] => (indent, s)

/-- Whether a line of this indentation belongs to none of the open flow collections. The line
that closes the outermost one may be indented one column less than the others. -/
def cutsFlow (s : Scanner) (indent : Nat) : Bool :=
  let closes := match s.rest with
    | ']' :: _ | '\x7d' :: _ => indent + 1 = s.minIndent && s.depth = 1
    | _ => false
  !closes &&
    ((indent < s.minIndent && s.rest.head? != some '#') || (indent = 0 && atMarker s.rest))

/-- Emit commas, at most `fuel` of them. -/
def commas : Nat → Scanner → Scanner
  | 0, s => s
  | fuel + 1, s =>
    if s.rest.head? == some ',' then commas fuel { (s.take 1).takeBlanks with afterKey := false }
    else s

/-- Read on in a flow collection, from what is not white space. -/
def flowContent (s : Scanner) : ScanMode × Scanner :=
  let s := s.commas s.rest.length
  let s := s.indicators s.rest.length
  match s.rest with
  | [] | '\n' :: _ => (.flow, s)
  | '#' :: _ => (.flow, s.takeLine)
  | '[' :: _ | '\x7b' :: _ =>
    (.flow, { s.take 1 with afterKey := false, depth := s.depth + 1 })
  | ']' :: _ | '\x7d' :: _ =>
    let s := { s.take 1 with afterKey := true, depth := s.depth - 1 }
    (s.mode, s)
  | '*' :: _ => (.flow, s.takeWhile isNameChar)
  | '\'' :: _ | '"' :: _ => (.flow, { s with afterKey := true }.quoted)
  | c :: rest =>
    if c == ':' && (s.afterKey || atGap rest || rest.head? == some ',') then
      (.flow, { s.take 1 with afterKey := false }.takeBlanks)
    else (.flow, { s with afterKey := false }.plain)

/-- Read on in a flow collection. -/
def flow (s : Scanner) : ScanMode × Scanner :=
  let (indent?, s) := flowGap (s.rest.length + 1) none s
  match indent? with
  | some indent =>
    if s.cutsFlow indent then ({ s with depth := 0 }.mark .flowCut).lineStart else s.flowContent
  | none => s.flowContent

/-- Read on. -/
def step : ScanMode → Scanner → ScanMode × Scanner
  | .stream, s => s.stream
  | .document, s => s.document
  | .flow, s => s.flow

/-- Read on to the end, at most `fuel` times. -/
def run : Nat → ScanMode → Scanner → Scanner
  | 0, _, s => s
  | fuel + 1, mode, s =>
    if s.rest.isEmpty then s
    else
      let (mode, s) := s.step mode
      run fuel mode s

end Scanner

/-- The lexemes of a source. Reading on once or twice uses up a character. -/
def lexemes (source : List Char) : List Lexeme :=
  (Scanner.run (3 * source.length + 3) .stream (.start source)).found.reverse

end BlockIr.Yaml
