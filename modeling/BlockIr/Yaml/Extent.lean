import BlockIr.Yaml.Character

/-!
# Extent of scalars

How far a scalar reaches is decided before it is known where it stands, from the indentation
that the next line must have at least. Every function below splits a text into what belongs to
a scalar and the rest.

* `plainExtent`: up to a colon that stands alone, a comment, and in a flow collection an
  indicator.
* `quotedExtent`: up to the closing quote; without one, the whole text.
* `blockExtent`: the lines that are indented enough.
-/

namespace BlockIr.Yaml

/-- Whether a scalar goes on in the line that starts here: the line is blank or indented
enough, and no document marker where no indentation is asked for. -/
def continues (minIndent : Nat) (line : List Char) : Bool :=
  if minIndent = 0 then !atMarker line
  else
    let spaces := leadingSpaces line
    (line.drop spaces).head? == some '\n' || minIndent ≤ spaces

/-! ## Plain scalars -/

/-- Whether the text after a colon makes the colon a separator. -/
def afterColon (inFlow : Bool) (rest : List Char) : Bool :=
  atGap rest || (inFlow && atFlowIndicator rest)

/-- Whether a plain scalar stops at white space that is followed by `rest`. -/
def stopsBefore (inFlow : Bool) (rest : List Char) : Bool :=
  match rest.head? with
  | some c => c == '#' || (inFlow && isFlowIndicator c)
  | none => false

/-- Walk over a plain scalar. `content` holds what belongs to it and `gap` the white space
behind that, both reversed; `after` is the text behind the content. -/
def scanPlain (inFlow : Bool) (minIndent : Nat) (content gap after : List Char) :
    List Char → List Char × List Char
  | [] => (content.reverse, after)
  | c :: rest =>
    if isBlank c then
      if stopsBefore inFlow rest then (content.reverse, after)
      else scanPlain inFlow minIndent content (c :: gap) after rest
    else if c == '\n' then
      if stopsBefore inFlow rest || !continues minIndent rest then (content.reverse, after)
      else scanPlain inFlow minIndent content (c :: gap) after rest
    else if c == '\r' && stopsBefore inFlow rest then ((c :: gap ++ content).reverse, rest)
    else if (c == ':' && afterColon inFlow rest) || (inFlow && isFlowIndicator c) then
      (content.reverse, after)
    else scanPlain inFlow minIndent (c :: gap ++ content) [] rest rest

/-- The plain scalar at the start of a text; it may be empty in a flow collection. -/
def plainExtent (inFlow : Bool) (minIndent : Nat) (cs : List Char) : List Char × List Char :=
  scanPlain inFlow minIndent [] [] cs cs

/-! ## Quoted scalars -/

/-- The text up to and including the closing single quote; a doubled quote closes nothing. -/
def closeSingle? : List Char → Option (List Char)
  | '\'' :: '\'' :: rest => (closeSingle? rest).map ('\'' :: '\'' :: ·)
  | '\'' :: _ => some ['\'']
  | c :: rest => (closeSingle? rest).map (c :: ·)
  | [] => none

/-- The text up to and including the closing double quote; an escaped quote closes nothing. -/
def closeDouble? : List Char → Option (List Char)
  | '"' :: _ => some ['"']
  | '\\' :: c :: rest => (closeDouble? rest).map ('\\' :: c :: ·)
  | c :: rest => (closeDouble? rest).map (c :: ·)
  | [] => none

/-- The text up to the first line break behind which the scalar does not go on. `body` is the
text of the scalar, `cs` the same with all that follows. -/
def cutAtUnindent (minIndent : Nat) : (body cs : List Char) → List Char
  | c :: body, _ :: cs =>
    if c == '\n' && !continues minIndent cs then [] else c :: cutAtUnindent minIndent body cs
  | _, _ => []

/-- The quoted scalar at the start of a text. -/
def quotedExtent (minIndent : Nat) (cs : List Char) : List Char × List Char :=
  let closed? := match cs with
    | '\'' :: rest => closeSingle? rest
    | _ :: rest => closeDouble? rest
    | [] => none
  match closed? with
  | none => (cs, [])
  | some body =>
    let token := cutAtUnindent minIndent (cs.take (body.length + 1)) cs
    (token, cs.drop token.length)

/-! ## Block scalars -/

/-- What the header of a block scalar says about its extent. -/
structure BlockMarks where
  /-- Extra indentation, if the header gives it. -/
  indent : Option Nat
  keep : Bool

/-- Read the marks that stand behind the style of a block scalar. -/
def BlockMarks.read (m : BlockMarks) : List Char → BlockMarks
  | c :: rest =>
    if c == '+' then { m with keep := true }.read rest
    else if '1' ≤ c ∧ c ≤ '9' then { m with indent := some (c.toNat - '0'.toNat) }.read rest
    else if c == '-' then m.read rest
    else m
  | [] => m

/-- A line without its line break. -/
def lineText (line : List Char) : List Char := line.takeWhile (· != '\n')

/-- Whether a line has a line break and nothing but spaces before it. -/
def isEmptyLine (line : List Char) : Bool :=
  (lineText line).all (· == ' ') && line.getLast? == some '\n'

/-- Whether a line of a block scalar goes on with its content. -/
def inBlock (minIndent : Nat) (line : List Char) : Bool :=
  if minIndent = 0 then !atMarker line else isEmptyLine line || minIndent ≤ leadingSpaces line

/-- Whether a line holds at most `indent` spaces and nothing else. A carriage return at the end
of the source counts as a line break. -/
def isShortLine (indent : Nat) (line : List Char) : Bool :=
  let text := if line.getLast? == some '\r' then line.dropLast else lineText line
  text.all (· == ' ') && text.length ≤ indent

/-- Drop short lines at the end; the first line stays. -/
def dropShortLines (indent : Nat) : List (List Char) → List (List Char)
  | [] => []
  | first :: rest => first :: (rest.reverse.dropWhile (isShortLine indent)).reverse

/-- Whether a tab stands where indentation is missing. -/
def startsWithTab (cs : List Char) : Bool := (cs.dropWhile (· == ' ')).head? == some '\t'

structure BlockExtent where
  text : List Char
  rest : List Char
  /-- Indentation that the lines of the scalar have. -/
  indent : Nat

/-- The text of a block scalar from the line below its header. -/
def blockExtent (m : BlockMarks) (minIndent : Nat) (cs : List Char) : BlockExtent :=
  let lines := linesWithBreaks cs
  let leading := lines.takeWhile isEmptyLine
  let below := lines.drop leading.length
  let indent := leadingSpaces (below.headD [])
  let blockIndent :=
    if indent < minIndent then minIndent
    else
      match m.indent with
      | none => indent
      | some extra => extra - 1 + max 1 minIndent
  let content := if indent < minIndent then [] else below.takeWhile (inBlock blockIndent)
  let all := leading ++ content
  let after := cs.drop all.flatten.length
  let text :=
    if startsWithTab after then all.flatten ++ after.takeWhile isGap
    else if m.keep then all.flatten
    else (dropShortLines indent all).flatten
  ⟨text, cs.drop text.length, blockIndent⟩

end BlockIr.Yaml
