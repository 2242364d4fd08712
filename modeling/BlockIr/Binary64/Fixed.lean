import BlockIr.Binary64.Rounding

/-!
# Six decimal places

A float constant is shown with six decimal places. The exact value is rounded, a tie away
from zero, and the sign is the sign of the number, not of the rounded digits: `-0.0` and
negative numbers that round to zero keep their minus sign.
-/

namespace BlockIr.Binary64

/-- The last `places` decimal digits of `n`, zeros included. -/
def lastDigits : Nat → Nat → List Char
  | 0, _ => []
  | places + 1, n => lastDigits places (n / 10) ++ [Nat.digitChar (n % 10)]

theorem length_lastDigits (places n : Nat) : (lastDigits places n).length = places := by
  induction places generalizing n with
  | zero => rfl
  | succ places ih => simp [lastDigits, ih]

/-- `n / 10 ^ places` with exactly `places` digits after the point. -/
def fixedText (places n : Nat) : String :=
  (n / tenTo places).repr ++ "." ++ String.ofList (lastDigits places n)

/-- Decimal places of a float constant. -/
def places : Nat := 6

namespace Magnitude

/-- The magnitude in units of the last decimal place. -/
def inPlaces (m : Magnitude) : Nat :=
  divNearest .up (m.toUnits * tenTo places) unitsPerOne

end Magnitude

/-- Minus sign of a negative number. -/
def signText (negative : Bool) : String := if negative then "-" else ""

/-- Text of a float constant. -/
def fixed : Binary64 → String
  | .nan => "nan"
  | .infinity negative => signText negative ++ "inf"
  | .finite negative m => signText negative ++ fixedText places m.inPlaces

example : fixed (ofBits 0x3f80000000000000) = "0.007813" := by decide +kernel
example : fixed (ofBits 0x8000000000000001) = "-0.000000" := by decide +kernel
example : fixed (ofBits 0x444b1ae4d6e2ef50) = "1000000000000000000000.000000" := by
  decide +kernel

end BlockIr.Binary64
