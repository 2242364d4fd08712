import Mathlib.Algebra.Group.Nat.Defs
import Mathlib.Data.Nat.Log
import BlockIr.Binary64.Rounding

/-!
# Safe integers

An integer of at most 53 bits is a binary64 number of its own, so nothing is lost when it is
rounded to one and taken back (`Binary64.toInt?_ofInt`).
-/

namespace BlockIr.Binary64

theorem toUnits_eq (m : Magnitude) : m.toUnits = m.significand * 2 ^ m.shift :=
  Nat.shiftLeft_eq _ _

theorem unitsPerOne_eq : unitsPerOne = 2 ^ unitExponent := Nat.one_shiftLeft _

theorem divNearest_of_dvd (tie : Tie) {num den : Nat} (hden : 0 < den) (h : den ∣ num) :
    divNearest tie num den = num / den := by
  have hmod : num % den = 0 := Nat.mod_eq_zero_of_dvd h
  simp [divNearest, hmod, hden]

theorem log2_mul_two_pow {n : Nat} (hn : n ≠ 0) (k : Nat) :
    (n * 2 ^ k).log2 = n.log2 + k := by
  have hne : n * 2 ^ k ≠ 0 := Nat.mul_ne_zero hn (Nat.two_pow_pos k).ne'
  rw [Nat.log2_eq_iff hne]
  constructor
  · rw [Nat.pow_add]
    exact Nat.mul_le_mul_right _ (Nat.log2_self_le hn)
  · rw [Nat.add_right_comm, Nat.pow_add]
    exact Nat.mul_lt_mul_of_pos_right Nat.lt_log2_self (Nat.two_pow_pos k)

/-- The bits of a number moved to the front of a significand. -/
theorem normal_bounds {n k : Nat} (hn : n ≠ 0) (hk : n.log2 + k = 52) :
    2 ^ 52 ≤ n * 2 ^ k ∧ n * 2 ^ k < 2 ^ 53 := by
  have hne : n * 2 ^ k ≠ 0 := Nat.mul_ne_zero hn (Nat.two_pow_pos k).ne'
  rw [← Nat.log2_eq_iff hne, log2_mul_two_pow hn, hk]

/-- A positive number of at most 53 bits has a magnitude without being rounded. -/
theorem nearest?_one {n : Nat} (hpos : n ≠ 0) (hn : n ≤ maxSafe) :
    ∃ m, nearest? n 1 = some m ∧ m.toUnits = unitsPerOne * n := by
  have hbits : n.log2 < 53 := (Nat.log2_lt hpos).mpr (Nat.lt_of_le_of_lt hn (by decide))
  obtain ⟨k, hk⟩ : ∃ k, n.log2 + k = 52 := ⟨52 - n.log2, by omega⟩
  obtain ⟨shift, hshift⟩ : ∃ shift, unitExponent = k + shift :=
    ⟨unitExponent - k, by simp only [unitExponent]; omega⟩
  have hunits : unitsPerOne * n = n * 2 ^ k * 2 ^ shift := by
    rw [unitsPerOne_eq, hshift, Nat.pow_add, Nat.mul_comm, Nat.mul_assoc]
  have hlog : (unitsPerOne * n / 1).log2 - 52 = shift := by
    rw [Nat.div_one, Nat.mul_comm, unitsPerOne_eq, log2_mul_two_pow hpos]
    omega
  have hsignificand : divNearest .toEven (unitsPerOne * n) (1 <<< shift) = n * 2 ^ k := by
    rw [Nat.one_shiftLeft, hunits, divNearest_of_dvd _ (Nat.two_pow_pos _) (Nat.dvd_mul_left _ _),
      Nat.mul_div_cancel _ (Nat.two_pow_pos _)]
  obtain ⟨hlow, hhigh⟩ := normal_bounds hpos hk
  have hcanonical : Canonical (n * 2 ^ k) shift := by
    refine ⟨hhigh, ?_, .inl hlow⟩
    simp only [unitExponent, maxShift] at hshift ⊢
    omega
  refine ⟨⟨_, _, hcanonical⟩, ?_, by rw [toUnits_eq, hunits]⟩
  simp only [nearest?, hlog, hsignificand]
  split
  · rename_i hcarry
    exact absurd hcarry (Nat.ne_of_lt hhigh)
  · rw [Magnitude.ofParts?, dif_pos hcanonical]

theorem nearest?_zero : ∃ m, nearest? 0 1 = some m ∧ m.toUnits = 0 := by
  refine ⟨.zero, ?_, rfl⟩
  unfold nearest?
  rw [Nat.mul_zero]
  decide

theorem toNat?_of_toUnits {m : Magnitude} {n : Nat} (h : m.toUnits = unitsPerOne * n) :
    m.toNat? = some n := by
  have hone : 0 < unitsPerOne := by rw [unitsPerOne_eq]; exact Nat.two_pow_pos _
  rw [Magnitude.toNat?, h, if_pos (Nat.mul_mod_right _ _), Nat.mul_div_cancel_left _ hone]

theorem ofQuotient_of_nearest? {negative : Bool} {num den : Nat} {m : Magnitude}
    (h : nearest? num den = some m) : ofQuotient negative num den = .finite negative m := by
  unfold ofQuotient
  -- Rewriting in place would evaluate the rounding of variables.
  generalize nearest? num den = rounded at h
  subst h
  rfl

/-- A safe integer is taken back from the number nearest to it. -/
theorem toInt?_ofInt {n : Int} (hn : n.natAbs ≤ maxSafe) : (ofInt n).toInt? = some n := by
  have hnearest : ∃ m, nearest? n.natAbs 1 = some m ∧ m.toUnits = unitsPerOne * n.natAbs := by
    by_cases hzero : n.natAbs = 0
    · rw [hzero, Nat.mul_zero]
      exact nearest?_zero
    · exact nearest?_one hzero hn
  obtain ⟨m, hm, hunits⟩ := hnearest
  rw [ofInt, ofQuotient_of_nearest? hm, toInt?, toNat?_of_toUnits hunits, Option.map_some]
  clear hunits hm
  simp only [decide_eq_true_eq, Option.some.injEq]
  split <;> omega

end BlockIr.Binary64
