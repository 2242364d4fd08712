/-!
# Decimal text of integers

Integers are written with decimal digits and a minus sign only below zero. The reader accepts
an optional minus sign followed by one or more digits, so leading zeros and `-0` are read but
never written.

* `integer?_integer`: what is written is read back.
* `integer_inj`: so different integers are written differently.
* `mem_integer`: nothing but digits and minus signs is written.
-/

namespace BlockIr.Text

/-- Decimal digits, with a leading minus sign only for negative values. -/
def integer (n : Int) : String :=
  if n < 0 then "-" ++ n.natAbs.repr else n.natAbs.repr

/-- Value of a text made of one or more decimal digits. -/
def natural? (cs : List Char) : Option Nat :=
  if !cs.isEmpty && cs.all Char.isDigit then some (Nat.ofDigitChars 10 cs 0) else none

/-- Value of an optional minus sign followed by one or more decimal digits. -/
def integer? (s : String) : Option Int :=
  match s.toList with
  | '-' :: cs => (natural? cs).map fun n : Nat => -(n : Int)
  | cs => (natural? cs).map fun n : Nat => (n : Int)

theorem natural?_toDigits (n : Nat) : natural? (Nat.toDigits 10 n) = some n := by
  have hne : (Nat.toDigits 10 n).isEmpty = false := by
    simp [Nat.toDigits_ne_nil]
  have hall : (Nat.toDigits 10 n).all Char.isDigit = true := by
    rw [List.all_eq_true]
    intro c hc
    exact Nat.isDigit_of_mem_toDigits (by decide) (by decide) hc
  simp [natural?, hne, hall, Nat.ofDigitChars_toDigits]

theorem head_toDigits_ne_minus (n : Nat) (cs : List Char) :
    Nat.toDigits 10 n ≠ '-' :: cs := by
  intro h
  have : ('-').isDigit = true :=
    Nat.isDigit_of_mem_toDigits (b := 10) (n := n) (by decide) (by decide) (by rw [h]; simp)
  exact absurd this (by decide)

/-- What is written is read back. -/
theorem integer?_integer (n : Int) : integer? (integer n) = some n := by
  unfold integer
  split
  · next h =>
    have : (("-" ++ n.natAbs.repr : String)).toList = '-' :: Nat.toDigits 10 n.natAbs := by
      simp [Nat.repr_eq_ofList_toDigits]
    simp only [integer?, this, natural?_toDigits, Option.map_some]
    exact congrArg some (by omega)
  · next h =>
    have ht : (n.natAbs.repr).toList = Nat.toDigits 10 n.natAbs := by
      simp [Nat.repr_eq_ofList_toDigits]
    unfold integer?
    rw [ht]
    split
    · next cs hcs => exact absurd hcs (head_toDigits_ne_minus _ _)
    · simp only [natural?_toDigits, Option.map_some]
      exact congrArg some (by omega)

theorem integer_inj {m n : Int} : integer m = integer n ↔ m = n := by
  constructor
  · intro h
    have hread : integer? (integer m) = integer? (integer n) := congrArg integer? h
    rw [integer?_integer, integer?_integer] at hread
    exact Option.some.inj hread
  · rintro rfl
    rfl

theorem mem_integer {n : Int} {c : Char} (h : c ∈ (integer n).toList) :
    c.isDigit = true ∨ c = '-' := by
  have hdigit {m : Nat} (hm : c ∈ m.repr.toList) : c.isDigit = true := by
    rw [Nat.repr_eq_ofList_toDigits, String.toList_ofList] at hm
    exact Nat.isDigit_of_mem_toDigits (by decide) (by decide) hm
  unfold integer at h
  split at h
  · rw [String.toList_append, List.mem_append] at h
    rcases h with h | h
    · exact .inr (List.mem_singleton.mp h)
    · exact .inl (hdigit h)
  · exact .inl (hdigit h)

end BlockIr.Text
