import BlockIr.Yaml.Folding
import BlockIr.Yaml.Layout

/-!
# Block scalars

A block scalar holds the lines below its header that are indented as deeply as the first one,
or as the header says. The literal style keeps line breaks; the folded style folds those
between lines that are not indented further. What becomes of the breaks at the end is up to
the header.

* `BlockHeader.read?`: what a header says.
* `blockText?`: the text of a block scalar.
-/

namespace BlockIr.Yaml

/-- What becomes of the line breaks at the end. -/
inductive Chomping where
  | clip | strip | keep
  deriving DecidableEq

structure BlockHeader where
  folded : Bool
  /-- Extra indentation, if the header gives it. -/
  indent : Option Nat
  chomping : Chomping

/-- Read the characters of a header behind its style. -/
def BlockHeader.refine (h : BlockHeader) : List Char → Option BlockHeader
  | [] => some h
  | c :: rest =>
    if (c == '+' || c == '-') && h.chomping == .clip then
      { h with chomping := if c == '+' then .keep else .strip }.refine rest
    else if '1' ≤ c ∧ c ≤ '9' ∧ h.indent = none then
      { h with indent := some (c.toNat - '0'.toNat) }.refine rest
    else none

/-- What a header says, from its first character. -/
def BlockHeader.read? : List Char → Option BlockHeader
  | c :: marks => (⟨c == '>', none, .clip⟩ : BlockHeader).refine marks
  | [] => none

/-- The comment on the line of a header. A comment needs white space before it, and nothing but
white space and a comment may follow a header. -/
def headerComment? : (spaced : Bool) → (comment : String) → List Token → Option String
  | _, comment, [] => some comment
  | spaced, comment, t :: rest =>
    match t.kind with
    | .blanks => headerComment? true comment rest
    | .lineBreak => headerComment? spaced comment rest
    | .comment =>
      if spaced then headerComment? spaced (String.ofList (t.text.drop 1)) rest else none
    | _ => none

/-- The lines of a block scalar: the spaces each begins with, and the text behind them. -/
def blockLines (text : List Char) : List (Nat × List Char) :=
  let ends := if text.getLast? == some '\r' then text.dropLast else text
  if text.isEmpty then []
  else
    (splitLines ends).map fun line => (leadingSpaces line, line.drop (leadingSpaces line))

/-- The part of a block scalar written so far. -/
structure BlockText where
  text : List Char
  /-- What separates the next line from the text. -/
  sep : List Char
  afterDeeper : Bool

/-- Append one content line, its spaces beyond the indentation already counted. -/
def BlockText.push (folded : Bool) (t : BlockText) (extra : Nat) (content : List Char) :
    BlockText :=
  let deeper := List.replicate extra ' ' ++ content
  if !folded then { t with text := t.text ++ t.sep ++ deeper, sep := ['\n'] }
  else if 0 < extra || content.head? == some '\t' then
    let sep :=
      if t.sep == [' '] then ['\n']
      else if !t.afterDeeper && t.sep == ['\n'] then ['\n', '\n']
      else t.sep
    ⟨t.text ++ sep ++ deeper, ['\n'], true⟩
  else if content.isEmpty then
    if t.sep == ['\n'] then { t with text := t.text ++ ['\n'] } else { t with sep := ['\n'] }
  else ⟨t.text ++ t.sep ++ content, [' '], false⟩

/-- Append content lines; none may be less indented than the first. -/
def pushLines (folded : Bool) (trim : Nat) :
    BlockText → List (Nat × List Char) → Option BlockText
  | t, [] => some t
  | t, (spaces, content) :: rest =>
    if !content.isEmpty && spaces < trim then none
    else pushLines folded trim (t.push folded (spaces - trim) content) rest

/-- The text of a block scalar from its lines. `nested` says that it stands in a
collection, of the indentation `parentIndent`. -/
def blockText? (h : BlockHeader) (parentIndent : Nat) (nested : Bool)
    (lines : List (Nat × List Char)) : Option (List Char) :=
  let contentCount := (lines.reverse.dropWhile fun l => l.2.isEmpty).length
  if contentCount = 0 then
    some (if h.chomping == .keep && !lines.isEmpty then
      List.replicate (max 1 (lines.length - 1)) '\n' else [])
  else
    let leading := (lines.take contentCount).takeWhile fun l => l.2.isEmpty
    let firstSpaces := ((lines.drop leading.length).head?.map Prod.fst).getD 0
    let base := parentIndent + h.indent.getD 0
    let deepest := leading.foldl (fun m l => max m l.1) base
    let asked := if h.indent.isNone then deepest else base
    let trim := if h.indent.isNone then firstSpaces else base
    if firstSpaces < asked || (trim = 0 && nested) then none
    else
      let tail := lines.drop contentCount
      let kept := (tail.reverse.dropWhile fun l => l.1 ≤ trim).length
      let start : BlockText :=
        ⟨leading.flatMap (fun l => List.replicate (l.1 - trim) ' ' ++ ['\n']), [], false⟩
      let body := (lines.take (contentCount + kept)).drop leading.length
      (pushLines h.folded trim start body).map fun t =>
        match h.chomping with
        | .strip => t.text
        | .clip => t.text ++ ['\n']
        | .keep =>
          let text := t.text ++ (tail.drop kept).flatMap fun l =>
            '\n' :: List.replicate (l.1 - trim) ' '
          if text.getLast? == some '\n' then text else text ++ ['\n']

end BlockIr.Yaml
