import BlockIr.Text.Quoted
import BlockIr.Yaml.Schema
import BlockIr.Yaml.Tree
import BlockIr.Yaml.Written.Lines

/-!
# Written texts

A text keeps its style where it is written inside a flow collection, unless it would be read
back as something else. Without quotes a text may hold no indicator where one would be seen, and
may not look like a value of another kind; control characters need double quotes. A block
scalar becomes a quoted text.

* `writeText`: a text in its style.
-/

namespace BlockIr.Yaml.Written

/-- Where a scalar is written. -/
structure Spot where
  /-- Indentation of further lines. -/
  indent : Nat
  /-- Code units before the scalar, if they count. -/
  atStart : Option Nat
  /-- The scalar has to stay on one line. -/
  oneLine : Bool

/-! ## Double quotes -/

/-- A character inside double quotes, line breaks apart. -/
def escaped (c : Char) : List Char :=
  match c with
  | '\x00' => ['\\', '0']
  | '\x07' => ['\\', 'a']
  | '\x0b' => ['\\', 'v']
  | '\x1b' => ['\\', 'e']
  | c =>
    match Text.quotedChar c with
    | '\\' :: 'u' :: _ :: _ :: digits => '\\' :: 'x' :: digits
    | other => other

/-- Drop line breaks that begin a text, but not one that ends it; they are kept aside. -/
def leadingBreaks : List Char → List Char × List Char
  | '\n' :: c :: rest =>
    let (breaks, rest) := leadingBreaks (c :: rest)
    ('\n' :: breaks, rest)
  | cs => ([], cs)

/-- The inside of double quotes. Line breaks are escaped if `short` holds, and written out
otherwise, the one at the end apart; blanks beside them are escaped. -/
def doubleBody (short : Bool) (indent : Nat) : Nat → List Char → List Char
  | 0, _ | _, [] => []
  | fuel + 1, '\n' :: rest =>
    if short || rest.isEmpty then '\\' :: 'n' :: doubleBody short indent fuel rest
    else
      let (breaks, rest) := leadingBreaks rest
      let guard := if rest.head? == some ' ' then ['\\'] else []
      '\n' :: '\n' :: breaks ++ List.replicate indent ' ' ++ guard ++
        doubleBody short indent fuel rest
  | fuel + 1, ' ' :: '\n' :: rest => '\\' :: ' ' :: doubleBody short indent fuel ('\n' :: rest)
  | fuel + 1, c :: rest => escaped c ++ doubleBody short indent fuel rest

/-- Least width of a text whose line breaks are written out. -/
def shortWidth : Nat := 40

def writeDouble (spot : Spot) (cs : List Char) : List Char :=
  let width := Text.units (Text.quoted (String.ofList cs))
  let short := spot.oneLine || width < shortWidth
  let body := '"' :: doubleBody short spot.indent cs.length cs ++ ['"']
  if spot.oneLine then body else foldLong true spot.indent spot.atStart body

/-! ## Single quotes -/

/-- Double the line break at the end of each run of them, and indent what follows. -/
def spreadBreaks (indent : Nat) : List Char → List Char
  | [] => []
  | '\n' :: rest =>
    if rest.head? == some '\n' then '\n' :: spreadBreaks indent rest
    else '\n' :: newLine indent ++ spreadBreaks indent rest
  | c :: rest => c :: spreadBreaks indent rest

/-- Whether some two characters in a row are as asked. -/
def anyPair (p : Char → Char → Bool) : List Char → Bool
  | a :: b :: rest => p a b || anyPair p (b :: rest)
  | _ => false

def blankBeforeBreak (a b : Char) : Bool := isBlank a && b == '\n'

def blankBehindBreak (a b : Char) : Bool := a == '\n' && isBlank b

def writeSingle (spot : Spot) (cs : List Char) : List Char :=
  if (spot.oneLine && cs.contains '\n') || anyPair blankBeforeBreak cs ||
      anyPair blankBehindBreak cs then writeDouble spot cs
  else
    let doubled := cs.flatMap fun c => if c == '\'' then ['\'', '\''] else [c]
    let body := '\'' :: spreadBreaks spot.indent doubled ++ ['\'']
    if spot.oneLine then body else foldLong false spot.indent spot.atStart body

/-- A text in quotes: single ones if it holds double ones only. -/
def writeQuoted (spot : Spot) (cs : List Char) : List Char :=
  if cs.contains '"' && !cs.contains '\'' then writeSingle spot cs else writeDouble spot cs

/-! ## No quotes -/

/-- Characters that no text without quotes starts with. -/
def opensOther (c : Char) : Bool := "\n\t ,[]\x7b\x7d#&*!|>'\"%@\x60".toList.contains c

/-- Whether two characters in a row would be read as an indicator or be folded. -/
def misread (a b : Char) : Bool :=
  ((a == '\n' || a == ':') && isBlank b) || blankBeforeBreak a b ||
    ((a == '\n' || isBlank a) && b == '#')

/-- Whether a text would be read as something else if it had no quotes. -/
def needsQuotes (cs : List Char) : Bool :=
  let opens := match cs with
    | ['?'] | ['-'] => true
    | '?' :: c :: _ | '-' :: c :: _ => isBlank c
    | c :: _ => opensOther c
    | [] => false
  let closes := match cs.getLast? with
    | some c => c == '\n' || isBlank c || c == ':' || c == '-'
    | none => false
  opens || closes || anyPair misread cs

/-- A text without quotes, unless it needs them. If `checked` holds it may not look like a
value of another kind. -/
def writePlain (v : Version) (checked : Bool) (spot : Spot) (cs : List Char) : List Char :=
  if (spot.oneLine && cs.contains '\n') || cs.any isFlowIndicator || needsQuotes cs then
    writeQuoted spot cs
  else
    let body := spreadBreaks spot.indent cs
    if checked && v.anyFits body then writeQuoted spot cs
    else if spot.oneLine then body
    else foldLong false spot.indent spot.atStart body

/-! ## Styles -/

/-- Characters that are always escaped. -/
def isControl (c : Char) : Bool :=
  let n := c.toNat
  n ≤ 8 || (11 ≤ n && n ≤ 31) || (127 ≤ n && n ≤ 159)

/-- A text in its style. -/
def writeText (v : Version) (checked : Bool) (spot : Spot) (style : Option Style)
    (cs : List Char) : List Char :=
  if cs.any isControl then writeDouble spot cs
  else
    match style with
    | some .double => writeDouble spot cs
    | some .single => writeSingle spot cs
    | some .literal | some .folded => writeQuoted spot cs
    | some .plain | none => writePlain v checked spot cs

end BlockIr.Yaml.Written
