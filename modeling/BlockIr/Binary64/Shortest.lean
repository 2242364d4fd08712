import BlockIr.Binary64.Rounding
import BlockIr.Text.Integer

/-!
# Shortest decimal text

A number in a message is written with the fewest digits that read back as the same number;
of the texts that short, the one nearest to the exact value. For each digit count the two
neighbours of the value on that decimal grid are tried in exact arithmetic, so a chosen text
always rounds back to the number it was chosen for.
-/

namespace BlockIr.Binary64

/-- Where the text of a number changes its shape. -/
structure NumberStyle where
  /-- Largest decimal exponent written positionally, counted before the point. -/
  maxPositional : Int
  /-- Most zeros between the point and the first digit. -/
  maxLeadingZeros : Int
  nanText : String
  infinityText : String

/-- Numbers in messages are positional up to 21 digits before the point and down to five zeros
after it, in scientific form beyond, with a sign on the exponent; a whole number has no point
and zero has no sign. -/
def messageStyle : NumberStyle where
  maxPositional := 21
  maxLeadingZeros := 5
  nanText := "NaN"
  infinityText := "Infinity"

/-- Quotient that scales by a power of ten. -/
def scaled (n : Nat) (exponent : Int) : Nat × Nat :=
  (n * tenTo exponent.toNat, tenTo (-exponent).toNat)

/-- Decimal exponent just above `m`: the least `e` with `m < 10 ^ e`. -/
def Magnitude.decimalExponent (m : Magnitude) : Int :=
  let scaledDown := m.toUnits * tenTo decimalReach / unitsPerOne
  (Nat.toDigits 10 scaledDown).length - decimalReach

/-- Whether `digits * 10 ^ exponent` reads back as `m`. -/
def Magnitude.readsBack (m : Magnitude) (digits : Nat) (exponent : Int) : Bool :=
  let (num, den) := scaled digits exponent
  nearest? num den == some m

/-- The neighbour of `m` on the grid of multiples of `10 ^ exponent` that reads back, the
nearer one if both do. -/
def Magnitude.onGrid? (m : Magnitude) (exponent : Int) : Option Nat :=
  let (num, den) := scaled m.toUnits (-exponent)
  let unit := den * unitsPerOne
  let below := num / unit
  let above := below + 1
  let nearestNeighbour := divNearest .toEven num unit
  match m.readsBack below exponent, m.readsBack above exponent with
  | true, true => some nearestNeighbour
  | true, false => some below
  | false, true => some above
  | false, false => none

/-- Digit counts that suffice for every finite number. -/
def maxDigits : Nat := 17

/-- The first grid, from coarse to fine, that holds a decimal reading back as `m`: its digits
and its exponent. -/
def Magnitude.shortestFrom (m : Magnitude) (top : Int) : List Nat → Nat × Int
  | [] => (m.toUnits, 0)
  | count :: rest =>
    match m.onGrid? (top - count) with
    | some digits => (digits, top - count)
    | none => shortestFrom m top rest

/-- The shortest decimal of a magnitude that is not zero. -/
def Magnitude.shortest (m : Magnitude) : Nat × Int :=
  m.shortestFrom m.decimalExponent ((List.range maxDigits).map (· + 1))

/-- Digits without trailing zeros, with the exponent counted before their first digit: the
value is `0.digits * 10 ^ point`. -/
def significantDigits (digits : Nat) (exponent : Int) : List Char × Int :=
  let cs := Nat.toDigits 10 digits
  ((cs.reverse.dropWhile (· == '0')).reverse, cs.length + exponent)

/-- Lay out significant digits with the point after `point` of them. -/
def layoutDigits (style : NumberStyle) (cs : List Char) (point : Int) : List Char :=
  let count : Int := cs.length
  if count ≤ point ∧ point ≤ style.maxPositional then
    cs ++ List.replicate (point - count).toNat '0'
  else if 0 < point ∧ point ≤ style.maxPositional then
    cs.take point.toNat ++ '.' :: cs.drop point.toNat
  else if -style.maxLeadingZeros ≤ point ∧ point ≤ 0 then
    '0' :: '.' :: List.replicate (-point).toNat '0' ++ cs
  else
    let power := point - 1
    let mantissa := match cs with
      | first :: second :: rest => first :: '.' :: second :: rest
      | _ => cs
    mantissa ++ 'e' :: (if power < 0 then '-' else '+') :: Nat.toDigits 10 power.natAbs

/-- Text of a number in a message. -/
def text (style : NumberStyle) : Binary64 → String
  | .nan => style.nanText
  | .infinity negative => (if negative then "-" else "") ++ style.infinityText
  | .finite negative m =>
    if m.significand = 0 then "0"
    else
      let (digits, exponent) := m.shortest
      let (cs, point) := significantDigits digits exponent
      (if negative then "-" else "") ++ String.ofList (layoutDigits style cs point)

example : text messageStyle (ofBits 0x3ff8000000000000) = "1.5" := by decide +kernel
example : text messageStyle (ofBits 0x3e7ad7f29abcaf48) = "1e-7" := by decide +kernel
example : text messageStyle (ofBits 0x444b1ae4d6e2ef50) = "1e+21" := by decide +kernel
example : text messageStyle (ofBits 0x4340000000000000) = "9007199254740992" := by
  decide +kernel
example : text messageStyle (ofBits 0x8000000000000000) = "0" := by decide +kernel

end BlockIr.Binary64
