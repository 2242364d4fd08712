/-!
# Column widths

Columns of a dump are measured in UTF-16 code units: a character outside the Basic
Multilingual Plane counts twice. A column is filled with blanks on its right and is never
cut.

* `units`: the measure.
* `padRight`: a text filled up to a width.
-/

namespace BlockIr.Text

/-- UTF-16 code units of one character. -/
def charUnits (c : Char) : Nat := if c.val < 0x10000 then 1 else 2

/-- UTF-16 code units of some characters. -/
def unitsOf : List Char → Nat
  | [] => 0
  | c :: cs => charUnits c + unitsOf cs

/-- UTF-16 code units of a text. -/
def units (s : String) : Nat := unitsOf s.toList

/-- `n` blanks. -/
def blanks (n : Nat) : String := String.ofList (List.replicate n ' ')

/-- Fill `s` with blanks on the right up to `width` code units. -/
def padRight (width : Nat) (s : String) : String := s ++ blanks (width - units s)

end BlockIr.Text
