import BlockIr.Binary64.Shortest
import BlockIr.Yaml.Written.Quoted

/-!
# Written scalars

A scalar is written as its tag asks for, or else as its value does. Nulls and booleans keep their
spelling, integers their base, and other numbers their exponent or the zeros at their end.

* `writeLeaf`: a scalar as it is written.
-/

namespace BlockIr.Yaml.Written

/-! ## Integers -/

/-- An integer with a mark in front of its digits in a base. -/
def inBase (mark : List Char) (base : Nat) (n : Int) : List Char :=
  (if n < 0 then ['-'] else []) ++ mark ++ Nat.toDigits base n.natAbs

/-- A place of a number in base 60. -/
def sixtieth (digits : List Char) : List Char :=
  List.replicate (2 - digits.length) '0' ++ digits

/-- The places of a number of seconds before the seconds themselves: hours, if there are any,
and minutes. -/
def minutesOf (minutes : Nat) : List Char :=
  if minutes < 60 then sixtieth (Nat.toDigits 10 minutes)
  else
    sixtieth (Nat.toDigits 10 (minutes / 60)) ++ ':' :: sixtieth (Nat.toDigits 10 (minutes % 60))

/-- An integer as it is written in a version. -/
def writeInt (v : Version) (form : Option NumberForm) (n : Int) : List Char :=
  match v, form with
  | .v12, some .octal => inBase ['0', 'o'] 8 n
  | .v11, some .octal => inBase ['0'] 8 n
  | _, some .hexadecimal => inBase ['0', 'x'] 16 n
  | _, some .binary => inBase ['0', 'b'] 2 n
  | _, some .sexagesimal =>
    (if n < 0 then ['-'] else []) ++ minutesOf (n.natAbs / 60) ++
      ':' :: sixtieth (Nat.toDigits 10 (n.natAbs % 60))
  | _, _ => inBase [] 10 n

/-! ## Other numbers -/

/-- Numbers that are always written with an exponent. -/
def exponentStyle : Binary64.NumberStyle where
  maxPositional := 0
  maxLeadingZeros := -1
  nanText := ".nan"
  infinityText := ".inf"

/-- Other numbers are positional unless they are very large or very small. -/
def numberStyle : Binary64.NumberStyle :=
  { Binary64.messageStyle with nanText := ".nan", infinityText := ".inf" }

/-- Fill up the digits behind the point with zeros. -/
def fillFraction (places : Nat) (cs : List Char) : List Char :=
  if places = 0 || cs.contains 'e' then cs
  else
    let found := (cs.dropWhile (· != '.')).drop 1
    (if cs.contains '.' then cs else cs ++ ['.']) ++ List.replicate (places - found.length) '0'

/-- The number of seconds beyond whole minutes, and the whole minutes. -/
def splitMinutes (m : Binary64.Magnitude) : Nat × Binary64 :=
  let unit := 60 * Binary64.unitsPerOne
  (m.toUnits / unit, .ofQuotient false (m.toUnits % unit) Binary64.unitsPerOne)

def writeFloat (form : Option NumberForm) (places : Nat) (x : Binary64) : List Char :=
  match x with
  | .finite negative m =>
    let sign := if negative then ['-'] else []
    match form with
    | some .exponent =>
      if m.significand = 0 then ['0', 'e', '+', '0'] else (x.text exponentStyle).toList
    | some .sexagesimal =>
      let (minutes, seconds) := splitMinutes m
      sign ++ minutesOf minutes ++ ':' :: sixtieth (seconds.text numberStyle).toList
    | _ =>
      fillFraction places (if m.significand = 0 then sign ++ ['0'] else (x.text numberStyle).toList)
  | _ => (x.text numberStyle).toList

/-- A text that a tag calls a number. -/
def writeNumberText (cs : List Char) : List Char :=
  let trimmed := ((cs.dropWhile isWhiteSpace).reverse.dropWhile isWhiteSpace).reverse
  let (negative, body) := signOf trimmed
  let inMark? := match trimmed with
    | '0' :: 'x' :: rest | '0' :: 'X' :: rest => inBase? 16 hexDigit? rest
    | '0' :: 'o' :: rest | '0' :: 'O' :: rest => inBase? 8 octalDigit? rest
    | '0' :: 'b' :: rest | '0' :: 'B' :: rest => inBase? 2 binaryDigit? rest
    | _ => none
  let value : Binary64 :=
    if trimmed.isEmpty || inMark?.isSome then .zero
    else if body == "Infinity".toList then .infinity negative
    else ((Decimal.split? Char.isDigit trimmed).map Decimal.value).getD .nan
  match value with
  | .finite .. => (Text.quoted (String.ofList cs)).toList
  | other => writeFloat none 0 other

/-! ## Bytes -/

/-- A text in pieces of a length. -/
def pieces (length : Nat) : Nat → List Char → List (List Char)
  | 0, _ | _, [] => []
  | fuel + 1, cs => cs.take length :: pieces length fuel (cs.drop length)

/-- Bytes as text, in pieces that fit on a line unless they stand in double quotes. -/
def writeBytes (v : Version) (spot : Spot) (style : Option Style) (bytes : List Nat) :
    List Char :=
  let digits := Base64.encode bytes
  let between := if style = some .literal then ['\n'] else [' ']
  let text :=
    if style = some .double then digits
    else between.intercalate (pieces (max leastWidth (lineWidth - spot.indent)) digits.length digits)
  writeText v false spot style text

/-! ## Scalars -/

/-- The mark of a merge key. -/
def mergeText : List Char := ['<', '<']

/-- The kind of scalar that a tag of the format asks for. -/
inductive ScalarTag where
  | null | bool | number | merge
  /-- A tag of a collection. -/
  | collection
  | other

def ScalarTag.of (v : Version) (tag : String) : ScalarTag :=
  if tag = coreTag "null" then null
  else if tag = coreTag "bool" then bool
  else if tag = coreTag "int" || tag = coreTag "float" then number
  else if tag = coreTag "merge" then merge
  else if tag = coreTag "map" || tag = coreTag "seq" then collection
  else if v = .v11 && [coreTag "set", coreTag "omap", coreTag "pairs"].contains tag then collection
  else other

/-- A text as its tag asks for. -/
def writeTagged (v : Version) (spot : Spot) (tag : Option String) (style : Option Style)
    (cs : List Char) : List Char :=
  match tag.map (ScalarTag.of v) with
  | some .null => "null".toList
  | some .bool => (if cs.isEmpty then "false" else "true").toList
  | some .number => writeNumberText cs
  | some .merge => mergeText
  | some .collection => writeText v false spot style cs
  | some .other | none =>
    if v = .v11 && cs == mergeText && tag != some (coreTag "str") then mergeText
    else writeText v true spot style cs

/-- A scalar as it is written. -/
def writeLeaf (v : Version) (spot : Spot) (tag : Option String) (x : Leaf) : List Char :=
  match x.value with
  | .null => (x.source.getD "null").toList
  | .bool b => (x.source.getD (if b then "true" else "false")).toList
  | .int n => writeInt v x.form n
  | .float y => writeFloat x.form x.fractionDigits y
  | .text s => writeTagged v spot tag x.style s.toList
  | .bytes bytes => writeBytes v spot x.style bytes
  | .time t => (Timestamp.short t).toList
  | .merge => mergeText

end BlockIr.Yaml.Written
