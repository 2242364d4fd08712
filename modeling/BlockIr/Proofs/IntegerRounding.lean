import BlockIr.Proofs.SafeInteger

/-!
# Integers as binary64 numbers

An integer is rounded to its first 53 bits, a tie going to the even one of its neighbours. What
comes out is an integer again, the same one up to the greatest safe integer and a greater one than
that from there on. Only an integer that is closer to `2 ^ 1024` than to any smaller number of 53
bits becomes an infinity.

* `le_divNearest_toEven_iff`: when a quotient is rounded to an even number or beyond it.
* `nearest?_one_cases`: the number nearest to a natural number.
* `toInt?_ofInt_eq`: the integer that is taken back from the number nearest to an integer.
* `rounded_eq_self`, `maxSafe_lt_rounded`: which integers are kept, and what becomes of the others.
-/

namespace BlockIr.Binary64

/-! ## Quotients -/

section Quotients

variable {tie : Tie} {num den : Nat}

theorem divNearest_mul_left {c : Nat} (hc : 0 < c) :
    divNearest tie (c * num) (c * den) = divNearest tie num den := by
  have hdiv : c * num / (c * den) = num / den := Nat.mul_div_mul_left _ _ hc
  have hmod : 2 * (c * num % (c * den)) = c * (2 * (num % den)) := by
    rw [Nat.mul_mod_mul_left, Nat.mul_left_comm]
  simp only [divNearest, hdiv, hmod, Nat.mul_lt_mul_left hc]

/-- Rounding goes to one of the two neighbours. -/
theorem divNearest_bounds (tie : Tie) (num den : Nat) :
    num / den ≤ divNearest tie num den ∧ divNearest tie num den ≤ num / den + 1 := by
  unfold divNearest
  dsimp only
  split
  · omega
  · split
    · omega
    · cases tie with
      | up => simp only; omega
      | toEven => simp only; split <;> omega

/-- An even number is reached from halfway below it on. -/
theorem le_divNearest_toEven_iff {m : Nat} (heven : m % 2 = 0) (hden : 0 < den) :
    m * (2 * den) ≤ 2 * num + den ↔ m ≤ divNearest .toEven num den := by
  obtain ⟨hlow, hhigh⟩ := divNearest_bounds .toEven num den
  have hnum : num / den * den + num % den = num := by
    rw [Nat.mul_comm]
    exact Nat.div_add_mod num den
  have hmod : num % den < den := Nat.mod_lt num hden
  rcases Nat.lt_trichotomy m (num / den + 1) with hlt | heq | hgt
  · have hm : m * den ≤ num / den * den := Nat.mul_le_mul_right den (Nat.lt_succ_iff.mp hlt)
    have hdouble : m * (2 * den) = 2 * (m * den) := Nat.mul_left_comm m 2 den
    exact ⟨fun _ => by omega, fun _ => by omega⟩
  · -- The neighbour below is odd, so a tie goes up.
    have hodd : ¬ num / den % 2 = 0 := by omega
    have hdouble : m * (2 * den) = 2 * (num / den * den) + 2 * den := by
      rw [heq, Nat.mul_left_comm, Nat.add_mul, Nat.one_mul, Nat.mul_add]
    have hhalf : m ≤ divNearest .toEven num den ↔ den ≤ 2 * (num % den) := by
      rw [heq]
      simp only [divNearest, if_neg hodd]
      split
      · omega
      · split <;> omega
    rw [hhalf]
    omega
  · have hm : (num / den + 2) * den ≤ m * den := Nat.mul_le_mul_right den hgt
    have hsplit : (num / den + 2) * den = num / den * den + 2 * den := Nat.add_mul _ _ _
    have hdouble : m * (2 * den) = 2 * (m * den) := Nat.mul_left_comm m 2 den
    constructor <;> intro h <;> omega

end Quotients

/-! ## The first 53 bits -/

/-- The bits of a number behind its first 53 bits. -/
def spareBits (n : Nat) : Nat := n.log2 - 52

/-- The first 53 bits of a number, rounded. -/
def leading (n : Nat) : Nat := divNearest .toEven n (2 ^ spareBits n)

/-- A number rounded to its first 53 bits. -/
def rounded (n : Nat) : Nat := leading n * 2 ^ spareBits n

/-- The greatest finite number and half of the distance to what would be the next one. -/
def finiteBound : Nat := (2 ^ 54 - 1) * 2 ^ 970

variable {n : Nat}

theorem rounded_eq_self (hn : n ≤ maxSafe) : rounded n = n := by
  have hbits : spareBits n = 0 := by
    have hlog : n.log2 < 53 := by
      by_cases hzero : n = 0
      · subst hzero
        decide
      · exact (Nat.log2_lt hzero).mpr (Nat.lt_of_le_of_lt hn (by decide))
    simp only [spareBits]
    omega
  rw [rounded, leading, hbits, Nat.pow_zero, divNearest_of_dvd _ Nat.one_pos (Nat.one_dvd n),
    Nat.div_one, Nat.mul_one]

/-! ## Numbers of more than 53 bits -/

theorem log2_of_large (hn : maxSafe < n) : n.log2 = spareBits n + 52 ∧ 0 < spareBits n := by
  have hlog : 53 ≤ n.log2 := by
    have hne : n ≠ 0 := by omega
    rw [Nat.le_log2 hne]
    exact hn
  simp only [spareBits]
  omega

theorem size_of_large (hn : maxSafe < n) :
    2 ^ 52 * 2 ^ spareBits n ≤ n ∧ n < 2 ^ 53 * 2 ^ spareBits n := by
  obtain ⟨hlog, -⟩ := log2_of_large hn
  have hne : n ≠ 0 := by omega
  rw [← Nat.pow_add, ← Nat.pow_add, Nat.add_comm 52, Nat.add_comm 53]
  exact (Nat.log2_eq_iff hne).mp hlog

theorem leading_bounds (hn : maxSafe < n) : 2 ^ 52 ≤ leading n ∧ leading n ≤ 2 ^ 53 := by
  have hpos : 0 < 2 ^ spareBits n := Nat.two_pow_pos _
  obtain ⟨hlow, hhigh⟩ := size_of_large hn
  rw [← Nat.le_div_iff_mul_le hpos] at hlow
  rw [← Nat.div_lt_iff_lt_mul hpos] at hhigh
  have hbounds := divNearest_bounds .toEven n (2 ^ spareBits n)
  unfold leading
  omega

/-- Nothing beyond the safe integers is rounded into them. -/
theorem maxSafe_lt_rounded (hn : maxSafe < n) : maxSafe < rounded n := by
  obtain ⟨-, hspare⟩ := log2_of_large hn
  have hlow : 2 ^ 52 * 2 ^ 1 ≤ leading n * 2 ^ spareBits n :=
    Nat.mul_le_mul (leading_bounds hn).1 (Nat.pow_le_pow_right (by decide) hspare)
  exact Nat.lt_of_lt_of_le (by decide) hlow

theorem nearest?_large (hn : maxSafe < n) :
    nearest? n 1 =
      if leading n = 2 ^ 53 then Magnitude.ofParts? (2 ^ 52) (unitExponent + spareBits n + 1)
      else Magnitude.ofParts? (leading n) (unitExponent + spareBits n) := by
  obtain ⟨hlog, -⟩ := log2_of_large hn
  have hne : n ≠ 0 := by omega
  have hshift : (unitsPerOne * n / 1).log2 - 52 = unitExponent + spareBits n := by
    rw [Nat.div_one, Nat.mul_comm, unitsPerOne_eq, log2_mul_two_pow hne, hlog]
    omega
  have hsignificand :
      divNearest .toEven (unitsPerOne * n) (1 <<< (unitExponent + spareBits n)) = leading n := by
    rw [Nat.one_shiftLeft, Nat.pow_add, unitsPerOne_eq,
      divNearest_mul_left (Nat.two_pow_pos unitExponent)]
    rfl
  simp only [nearest?, hshift, hsignificand]
  rfl

/-- The units of a number that is rounded to 53 bits. -/
theorem units_rounded : leading n * 2 ^ (unitExponent + spareBits n) = unitsPerOne * rounded n := by
  rw [rounded, unitsPerOne_eq, Nat.pow_add, Nat.mul_left_comm]

/-- Of the numbers that have one bit more than `t + 53` the ones from a bound on are rounded up to
the next power of two. -/
theorem bound_le_iff (hn : maxSafe < n) (t : Nat) :
    (2 ^ 54 - 1) * 2 ^ t ≤ n ↔ t + 2 ≤ spareBits n ∨ spareBits n = t + 1 ∧ 2 ^ 53 ≤ leading n := by
  obtain ⟨hlow, hhigh⟩ := size_of_large hn
  have hsucc : 2 ^ (t + 1) = 2 * 2 ^ t := Nat.pow_succ'
  rcases Nat.lt_trichotomy (spareBits n) (t + 1) with hlt | heq | hgt
  · have hpow : 2 ^ spareBits n ≤ 2 ^ t :=
      Nat.pow_le_pow_right (by decide) (Nat.le_of_lt_succ hlt)
    constructor <;> intro h <;> omega
  · have hup : 2 ^ 53 * (2 * 2 ^ (t + 1)) ≤ 2 * n + 2 ^ (t + 1) ↔ 2 ^ 53 ≤ leading n := by
      rw [leading, heq]
      exact le_divNearest_toEven_iff (by decide) (Nat.two_pow_pos _)
    rw [← hup]
    omega
  · have hpow : 2 ^ (t + 2) ≤ 2 ^ spareBits n := Nat.pow_le_pow_right (by decide) hgt
    have hsucc' : 2 ^ (t + 2) = 2 * 2 ^ (t + 1) := Nat.pow_succ'
    constructor <;> intro h <;> omega

theorem finiteBound_le_iff (hn : maxSafe < n) :
    finiteBound ≤ n ↔ 972 ≤ spareBits n ∨ spareBits n = 971 ∧ 2 ^ 53 ≤ leading n :=
  bound_le_iff hn 970

theorem Magnitude.ofParts?_eq_some {significand shift : Nat} (h : Canonical significand shift) :
    ofParts? significand shift = some ⟨significand, shift, h⟩ := dif_pos h

theorem Magnitude.ofParts?_eq_none {significand shift : Nat} (h : maxShift < shift) :
    ofParts? significand shift = none :=
  dif_neg fun hcanonical => Nat.not_le_of_lt h hcanonical.2.1

theorem maxSafe_lt_bound (t : Nat) : maxSafe < (2 ^ 54 - 1) * 2 ^ t := by
  have hlow : 2 ^ 54 - 1 ≤ (2 ^ 54 - 1) * 2 ^ t := Nat.le_mul_of_pos_right _ (Nat.two_pow_pos t)
  exact Nat.lt_of_lt_of_le (by decide) hlow

theorem maxSafe_lt_finiteBound : maxSafe < finiteBound := maxSafe_lt_bound 970

/-- The first 53 bits were not rounded up to a power of two. -/
theorem nearest?_of_leading_lt (hn : maxSafe < n) (hlead : leading n < 2 ^ 53)
    (hspare : spareBits n ≤ 971) :
    ∃ m, nearest? n 1 = some m ∧ m.toUnits = unitsPerOne * rounded n := by
  have hcanonical : Canonical (leading n) (unitExponent + spareBits n) := by
    refine ⟨hlead, ?_, .inl (leading_bounds hn).1⟩
    simp only [unitExponent, maxShift]
    omega
  refine ⟨⟨_, _, hcanonical⟩, ?_, ?_⟩
  · rw [nearest?_large hn, if_neg (Nat.ne_of_lt hlead), Magnitude.ofParts?_eq_some hcanonical]
  · rw [toUnits_eq, units_rounded]

/-- The first 53 bits were rounded up to a power of two, which has one bit more. -/
theorem nearest?_of_leading_eq (hn : maxSafe < n) (hlead : leading n = 2 ^ 53)
    (hspare : spareBits n ≤ 970) :
    ∃ m, nearest? n 1 = some m ∧ m.toUnits = unitsPerOne * rounded n := by
  have hcanonical : Canonical (2 ^ 52) (unitExponent + spareBits n + 1) := by
    refine ⟨by decide, ?_, .inl (Nat.le_refl _)⟩
    simp only [unitExponent, maxShift]
    omega
  refine ⟨⟨_, _, hcanonical⟩, ?_, ?_⟩
  · rw [nearest?_large hn, if_pos hlead, Magnitude.ofParts?_eq_some hcanonical]
  · have hdouble : 2 ^ 52 * 2 ^ (unitExponent + spareBits n + 1) =
        2 ^ 53 * 2 ^ (unitExponent + spareBits n) := by
      rw [Nat.pow_succ']
      omega
    rw [toUnits_eq, hdouble, ← hlead, units_rounded]

/-- The number nearest to a natural number is the number itself, rounded, or beyond the finite
range. -/
theorem nearest?_one_cases (n : Nat) :
    (n < finiteBound ∧ ∃ m, nearest? n 1 = some m ∧ m.toUnits = unitsPerOne * rounded n) ∨
      (finiteBound ≤ n ∧ nearest? n 1 = none) := by
  rcases Nat.lt_or_ge maxSafe n with hn | hn
  · have hbound := finiteBound_le_iff hn
    rcases Nat.lt_or_ge (leading n) (2 ^ 53) with hlead | hlead
    · by_cases hspare : spareBits n ≤ 971
      · exact .inl ⟨by omega, nearest?_of_leading_lt hn hlead hspare⟩
      · refine .inr ⟨by omega, ?_⟩
        rw [nearest?_large hn, if_neg (Nat.ne_of_lt hlead), Magnitude.ofParts?_eq_none]
        simp only [unitExponent, maxShift]
        omega
    · have heq : leading n = 2 ^ 53 := Nat.le_antisymm (leading_bounds hn).2 hlead
      by_cases hspare : spareBits n ≤ 970
      · exact .inl ⟨by omega, nearest?_of_leading_eq hn heq hspare⟩
      · refine .inr ⟨by omega, ?_⟩
        rw [nearest?_large hn, if_pos heq, Magnitude.ofParts?_eq_none]
        simp only [unitExponent, maxShift]
        omega
  · left
    refine ⟨Nat.lt_of_le_of_lt hn maxSafe_lt_finiteBound, ?_⟩
    rw [rounded_eq_self hn]
    by_cases hzero : n = 0
    · subst hzero
      exact nearest?_zero
    · exact nearest?_one hzero hn

/-! ## Integers -/

theorem ofQuotient_of_nearest?_none {negative : Bool} {num den : Nat}
    (h : nearest? num den = none) : ofQuotient negative num den = .infinity negative := by
  unfold ofQuotient
  -- Rewriting in place would evaluate the rounding of variables.
  generalize nearest? num den = nearest at h
  subst h
  rfl

/-- The integer that is taken back from the number nearest to an integer. -/
theorem toInt?_ofInt_eq (n : Int) :
    (ofInt n).toInt? =
      if n.natAbs < finiteBound then some (n.sign * rounded n.natAbs) else none := by
  rcases nearest?_one_cases n.natAbs with ⟨hlt, m, hm, hunits⟩ | ⟨hge, hnone⟩
  · rw [if_pos hlt, ofInt, ofQuotient_of_nearest? hm, toInt?, toNat?_of_toUnits hunits,
      Option.map_some]
    rcases Int.lt_trichotomy n 0 with hneg | rfl | hpos
    · simp [hneg, Int.sign_eq_neg_one_of_neg hneg]
    · rfl
    · have hnot : ¬ n < 0 := by omega
      simp [hnot, Int.sign_eq_one_of_pos hpos]
  · rw [if_neg (Nat.not_lt_of_le hge), ofInt, ofQuotient_of_nearest?_none hnone]
    rfl

end BlockIr.Binary64
