import BlockIr.Binary64.Basic

/-!
# Rounding to binary64

One exact rule, round to nearest, reads every kind of number: a quotient of two naturals is
rounded to a whole number of units with 53 significant bits, ties to the even significand.
Integers and decimal fractions are quotients.
-/

namespace BlockIr

/-- What becomes of a quotient halfway between two whole numbers. -/
inductive Tie where
  | toEven
  | up

/-- The whole number nearest to `num / den`. -/
def divNearest (tie : Tie) (num den : Nat) : Nat :=
  let quotient := num / den
  let twice := 2 * (num % den)
  if twice < den then quotient
  else if den < twice then quotient + 1
  else match tie with
    | .toEven => if quotient % 2 = 0 then quotient else quotient + 1
    | .up => quotient + 1

namespace Binary64

/-- The magnitude nearest to `num / den`; nothing when it lies beyond the largest finite
one. -/
def nearest? (num den : Nat) : Option Magnitude :=
  let units := unitsPerOne * num
  let shift := (units / den).log2 - 52
  let significand := divNearest .toEven units (den <<< shift)
  if significand = 0x20000000000000 then Magnitude.ofParts? (0x10000000000000) (shift + 1)
  else Magnitude.ofParts? significand shift

/-- The number nearest to a signed quotient; beyond the finite range it is an infinity. -/
def ofQuotient (negative : Bool) (num den : Nat) : Binary64 :=
  match nearest? num den with
  | some m => .finite negative m
  | none => .infinity negative

/-- The number nearest to an integer. -/
def ofInt (n : Int) : Binary64 := ofQuotient (n < 0) n.natAbs 1

/-- A power of ten. -/
def tenTo (exponent : Nat) : Nat := Nat.pow 10 exponent

/-- Decimal exponents whose absolute value exceeds this, counted from the leading digit, lie
beyond the finite range or below half a unit. -/
def decimalReach : Nat := 400

/-- The number nearest to `digits * 10 ^ exponent`. -/
def ofDecimal (negative : Bool) (digits : Nat) (exponent : Int) : Binary64 :=
  if digits = 0 then .finite negative .zero
  else if decimalReach < exponent then .infinity negative
  else if exponent < -(decimalReach + digits.log2 : Nat) then .finite negative .zero
  else ofQuotient negative (digits * tenTo exponent.toNat) (tenTo (-exponent).toNat)

end Binary64

end BlockIr
