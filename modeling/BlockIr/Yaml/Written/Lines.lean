import BlockIr.Text.Width

/-!
# Long lines

A scalar that is written on a line is broken where the line would grow too long. Between words
a blank gives way to the line break; inside double quotes a word may be broken too, behind a
backslash. Places and widths count UTF-16 code units.

* `foldLong`: a scalar, broken as needed.
-/

namespace BlockIr.Yaml.Written

/-- Width of a line. -/
def lineWidth : Nat := 80

/-- Least width for the text of a scalar, however deeply it is indented. -/
def leastWidth : Nat := 20

/-- Stands for the second code unit of a character. -/
def secondUnit : Char := '\x00'

/-- A text with one character for each code unit. -/
def unitsIn (cs : List Char) : List Char :=
  cs.flatMap fun c => if Text.charUnits c = 2 then [c, secondUnit] else [c]

/-- The characters of code units. -/
def ofUnits (cs : List Char) : List Char := cs.filter (· != secondUnit)

/-- A line break and the indentation behind it. -/
def newLine (indent : Nat) : List Char := '\n' :: List.replicate indent ' '

/-- Where a text is broken. -/
inductive Fold where
  /-- In place of the blank there. -/
  | blank (place : Nat)
  /-- Behind the character there, inside a word. -/
  | word (place : Nat)

def Fold.place : Fold → Nat
  | blank place | word place => place

/-- A search for folds. -/
structure FoldSearch where
  /-- The latest one first. -/
  folds : List Fold
  /-- The place where the line is full. -/
  full : Int
  /-- The last blank of the line that may give way. -/
  split : Option Nat := none
  prev : Option Char := none
  /-- Places of the first and the last character of the last escape. -/
  escape : Int × Int := (-1, -1)

/-- Whether a character stands there, and is no white space. -/
def isSolid : Option Char → Bool
  | some c => c != ' ' && c != '\n' && c != '\t'
  | none => false

/-- Characters of an escape behind its backslash. -/
def escapeLength : List Char → Nat
  | 'x' :: _ => 3
  | 'u' :: _ => 5
  | _ => 1

/-- Go on to the first character behind white space. -/
def passBlanks : (prev : Option Char) → (c : Char) → (place : Nat) → List Char →
    Option Char × Nat × List Char
  | prev, c, place, [] => (if prev == some ' ' || prev == some '\t' then prev else some c, place, [])
  | prev, c, place, next :: rest =>
    if prev == some ' ' || prev == some '\t' then passBlanks (some c) next (place + 1) rest
    else (some c, place, next :: rest)

/-- Search for folds from a place on. There is no answer where two folds would fall on one
place. -/
def findFolds? (quoted : Bool) (indent step : Nat) :
    Nat → (place : Nat) → List Char → FoldSearch → Option (List Fold)
  | _, _, [], s => some s.folds.reverse
  | 0, _, _ :: _, s => some s.folds.reverse
  | fuel + 1, place, c :: rest, s =>
    let skipped := if quoted && c == '\\' then escapeLength rest else 0
    let s := if 0 < skipped then { s with escape := (place, place + skipped) } else s
    let place := place + skipped
    let rest := rest.drop skipped
    let goOn (s : FoldSearch) :=
      findFolds? quoted indent step fuel (place + 1) rest { s with prev := some c }
    if c == '\n' then goOn { s with full := place + indent + step, split := none }
    else
      let gives := c == ' ' && isSolid s.prev && isSolid rest.head?
      let split := if gives then some place else s.split
      if place < s.full then goOn { s with split }
      else
        match split with
        | some split =>
          goOn { s with folds := .blank split :: s.folds, full := split + step, split := none }
        | none =>
          if !quoted then goOn { s with split }
          else
            let (prev, place, rest) := passBlanks s.prev c place rest
            let fold := if s.escape.2 + 1 < place then place - 2 else (s.escape.1 - 1).toNat
            if s.folds.any fun
                | .word other => other == fold
                | .blank _ => false then none
            else
              findFolds? quoted indent step fuel (place + 1) rest
                { s with folds := .word fold :: s.folds, full := fold + step, prev }

/-- The text behind the first fold, from its place on. -/
def breakFolds (indent : Nat) (text : List Char) : List Fold → List Char
  | [] => []
  | fold :: folds =>
    let stop := (folds.head?.map Fold.place).getD text.length
    let head := match fold with
      | .blank _ => []
      | .word place => (text[place]?).toList ++ ['\\']
    let body := (text.take stop).drop (fold.place + 1)
    head ++ newLine indent ++ body ++ breakFolds indent text folds

/-- Break a scalar, within quotes or not, that stands `atStart` behind the start of its
line. -/
def foldLong (quoted : Bool) (indent : Nat) (atStart : Option Nat) (cs : List Char) :
    List Char :=
  let text := unitsIn cs
  let step := max (1 + leastWidth) (1 + lineWidth - indent)
  if text.length ≤ step then cs
  else
    let far := (atStart.map fun n => decide (lineWidth - leastWidth < n)).getD false
    let full : Int := match atStart with
      | some n => if far then (lineWidth : Int) - indent else (lineWidth : Int) - n
      | none => (lineWidth : Int) - indent
    match findFolds? quoted indent step text.length 0 text { folds := [], full } with
    | none => cs
    | some folds =>
      let stop := (folds.head?.map Fold.place).getD text.length
      let first := text.take stop
      ofUnits ((if far then newLine indent ++ first else first) ++ breakFolds indent text folds)

end BlockIr.Yaml.Written
