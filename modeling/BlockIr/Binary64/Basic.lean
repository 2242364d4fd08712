/-!
# Binary64 numbers

A finite number is a sign and a magnitude; a magnitude is a whole number of units, the unit
being `2 ^ -1074`, the least positive magnitude. Its significand and shift are kept in the
one canonical form, so two finite numbers are equal exactly when sign and magnitude are, and
zero has two signs. All payloads of a NaN are the same value.

* `ofBits`, `toBits`: the 64-bit encoding.
* `toInt?`: the integer that a number is, if it is one.
-/

namespace BlockIr

/-- Exponent of the unit: a magnitude counts units of `2 ^ -unitExponent`. -/
def Binary64.unitExponent : Nat := 1074

/-- Units in one. -/
def Binary64.unitsPerOne : Nat := 1 <<< Binary64.unitExponent

/-- Largest shift of a finite magnitude. -/
def Binary64.maxShift : Nat := 2045

/-- The canonical pairs of significand and shift: 53 bits, the highest one set unless the
shift is already the least. -/
def Binary64.Canonical (significand shift : Nat) : Prop :=
  significand < 0x20000000000000 ∧ shift ≤ Binary64.maxShift ∧
    (0x10000000000000 ≤ significand ∨ shift = 0)

instance (significand shift : Nat) : Decidable (Binary64.Canonical significand shift) :=
  inferInstanceAs (Decidable (_ ∧ _ ∧ _))

/-- As many units as the significand shifted to the left. -/
structure Binary64.Magnitude where
  significand : Nat
  shift : Nat
  canonical : Binary64.Canonical significand shift
  deriving DecidableEq

/-- A binary64 number. -/
inductive Binary64 where
  | nan
  | infinity (negative : Bool)
  | finite (negative : Bool) (magnitude : Binary64.Magnitude)
  deriving DecidableEq

namespace Binary64

namespace Magnitude

def zero : Magnitude := ⟨0, 0, by decide⟩

instance : Inhabited Magnitude := ⟨zero⟩

/-- The magnitude as a whole number of units. -/
def toUnits (m : Magnitude) : Nat := m.significand <<< m.shift

/-- The magnitude with this canonical form, if it is one. -/
def ofParts? (significand shift : Nat) : Option Magnitude :=
  if h : Canonical significand shift then some ⟨significand, shift, h⟩ else none

/-- Whole number of ones in `m`, if it is whole. -/
def toNat? (m : Magnitude) : Option Nat :=
  if m.toUnits % unitsPerOne = 0 then some (m.toUnits / unitsPerOne) else none

end Magnitude

def zero : Binary64 := .finite false .zero

instance : Inhabited Binary64 := ⟨zero⟩

/-- The number encoded by 64 bits: sign, eleven exponent bits, 52 fraction bits. -/
def ofBits (word : UInt64) : Binary64 :=
  let bits := word.toNat
  let negative := 0x8000000000000000 ≤ bits
  let exponent := bits / 0x10000000000000 % 0x800
  let fraction := bits % 0x10000000000000
  if exponent = 2047 then
    if fraction = 0 then .infinity negative else .nan
  else if h : exponent = 0 then
    .finite negative ⟨fraction, 0, by
      have : fraction < 0x10000000000000 := Nat.mod_lt _ (by decide)
      exact ⟨by omega, by decide, .inr rfl⟩⟩
  else
    .finite negative ⟨0x10000000000000 + fraction, min (exponent - 1) maxShift, by
      have : fraction < 0x10000000000000 := Nat.mod_lt _ (by decide)
      exact ⟨by omega, Nat.min_le_right _ _, .inl (Nat.le_add_right _ _)⟩⟩

/-- Bits of the sign. -/
def signBits (negative : Bool) : Nat := if negative then 0x8000000000000000 else 0

/-- The 64-bit encoding; a NaN is the quiet one with an empty payload. -/
def toBits : Binary64 → UInt64
  | .nan => 0x7ff8000000000000
  | .infinity negative => UInt64.ofNat (signBits negative + 2047 * 0x10000000000000)
  | .finite negative m => UInt64.ofNat (signBits negative + m.shift * 0x10000000000000 + m.significand)

/-- Whole value of a number, if it is a finite integer; both zeros are `0`. -/
def toInt? : Binary64 → Option Int
  | .finite negative m => m.toNat?.map fun n : Nat => if negative then -(n : Int) else n
  | _ => none

/-- Largest integer up to which every integer is a binary64 number of its own. -/
def maxSafe : Nat := 0x1fffffffffffff

end Binary64

end BlockIr
