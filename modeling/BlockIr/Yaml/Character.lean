/-!
# Characters of the format

White space separates the parts of a source, and a handful of characters have a meaning of
their own where they stand alone. Line breaks are single line feeds once `unifyBreaks` has been
applied; a carriage return that is left is white space, but ends no line.
-/

namespace BlockIr.Yaml

/-- Line breaks as single line feeds. -/
def unifyBreaks : List Char → List Char
  | '\r' :: '\n' :: rest => '\n' :: unifyBreaks rest
  | c :: rest => c :: unifyBreaks rest
  | [] => []

/-- Blank inside a line. -/
def isBlank (c : Char) : Bool := c == ' ' || c == '\t'

/-- White space in any script. -/
def isWhiteSpace (c : Char) : Bool :=
  let n := c.toNat
  (9 ≤ n && n ≤ 13) || n == 0x20 || n == 0xa0 || n == 0x1680 || (0x2000 ≤ n && n ≤ 0x200a) ||
    n == 0x2028 || n == 0x2029 || n == 0x202f || n == 0x205f || n == 0x3000 || n == 0xfeff

/-- White space that separates the parts of a source. -/
def isGap (c : Char) : Bool := isBlank c || c == '\n' || c == '\r'

/-- Characters that open, close or separate the parts of a flow collection. -/
def isFlowIndicator (c : Char) : Bool :=
  c == ',' || c == '[' || c == ']' || c == '\x7b' || c == '\x7d'

/-- Characters of an anchor. -/
def isNameChar (c : Char) : Bool := !(isGap c || isFlowIndicator c)

/-- Characters of a tag, escapes apart. -/
def isTagChar (c : Char) : Bool :=
  c.isAlphanum || "-#;/?:@&=+$_.!~*'()".toList.contains c

/-- Value of a hexadecimal digit. -/
def hexDigit? (c : Char) : Option Nat :=
  if c.isDigit then some (c.toNat - '0'.toNat)
  else if 'a' ≤ c ∧ c ≤ 'f' then some (c.toNat - 'a'.toNat + 10)
  else if 'A' ≤ c ∧ c ≤ 'F' then some (c.toNat - 'A'.toNat + 10)
  else none

/-- Whether a text begins with white space or is at its end. -/
def atGap : List Char → Bool
  | [] => true
  | c :: _ => isGap c

/-- Whether a text begins with a flow indicator. -/
def atFlowIndicator : List Char → Bool
  | [] => false
  | c :: _ => isFlowIndicator c

/-- Whether a line holds a document marker: three hyphens or three dots, then white space. -/
def atMarker : List Char → Bool
  | '-' :: '-' :: '-' :: rest => atGap rest
  | '.' :: '.' :: '.' :: rest => atGap rest
  | _ => false

/-- Whether a line ends here. -/
def atBreak : List Char → Bool
  | [] => true
  | c :: _ => c == '\n'

/-- Count leading spaces. -/
def leadingSpaces : List Char → Nat
  | ' ' :: rest => leadingSpaces rest + 1
  | _ => 0

/-- Split a text into lines that keep their line breaks. -/
def linesWithBreaks : List Char → List (List Char)
  | [] => []
  | '\n' :: rest => ['\n'] :: linesWithBreaks rest
  | c :: rest =>
    match linesWithBreaks rest with
    | line :: lines => (c :: line) :: lines
    | [] => [[c]]

end BlockIr.Yaml
