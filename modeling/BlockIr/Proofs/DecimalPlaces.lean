import Mathlib.Algebra.Order.Round
import Mathlib.Data.Rat.Floor
import Mathlib.Tactic.FieldSimp
import Mathlib.Tactic.Linarith
import Mathlib.Tactic.Positivity
import BlockIr.Proofs.PlaceNotation
import BlockIr.Proofs.SafeInteger
import BlockIr.Text.Integer

/-!
# Six decimal places, exactly

The text of a finite number is its sign bit and the nearest number of millionths, a tie going
away from zero. What is rounded is the exact rational value of the 64 bits. A reader who only
knows the text knows the number to half a millionth, and texts are in the order of the numbers.

There are two usual ways to such a text. Below `10 ^ 21` the millionths are chosen by a rule
that compares distances, and a point is put into their digits; from there on a number is whole,
and its integer is written. Both give the same text.

* `inPlaces_eq_round`: the millionths are the exact value, rounded.
* `fixedText_eq_pointed`, `fixed_of_large`: the two ways to the text.
* `fixed_exact`: what the text of a finite word denotes.
-/

namespace BlockIr.Binary64

/-! ## Words -/

/-- The sign of an encoded number. -/
def signBit (word : UInt64) : Bool := 2 ^ 63 ≤ word.toNat

def exponentField (word : UInt64) : Nat := word.toNat / 2 ^ 52 % 2 ^ 11

def fractionField (word : UInt64) : Nat := word.toNat % 2 ^ 52

/-- All exponents but the greatest are those of finite numbers. -/
def IsFinite (word : UInt64) : Prop := exponentField word ≠ 2047

instance (word : UInt64) : Decidable (IsFinite word) := inferInstanceAs (Decidable (_ ≠ _))

/-- The absolute value of a finite word: with the least exponent the fraction alone, with any
other one the fraction after a leading one. -/
def magnitudeOf (word : UInt64) : ℚ :=
  if exponentField word = 0 then fractionField word * 2 ^ (-1074 : ℤ)
  else (2 ^ 52 + fractionField word) * 2 ^ ((exponentField word : ℤ) - 1075)

/-- The exact value of a finite word. -/
def valueOf (word : UInt64) : ℚ := signed (signBit word) (magnitudeOf word)

/-- The exact value of a magnitude. -/
def Magnitude.value (m : Magnitude) : ℚ := m.toUnits / unitsPerOne

theorem cast_unitsPerOne : (unitsPerOne : ℚ) = 2 ^ (1074 : ℤ) := by
  rw [unitsPerOne_eq, unitExponent, Nat.cast_pow, zpow_ofNat]
  rfl

theorem Magnitude.value_eq (m : Magnitude) :
    m.value = m.significand * 2 ^ ((m.shift : ℤ) - 1074) := by
  rw [value, toUnits_eq, cast_unitsPerOne, Nat.cast_mul, Nat.cast_pow, zpow_sub₀ two_ne_zero,
    zpow_natCast, mul_div_assoc]
  rfl

theorem magnitudeOf_nonneg (word : UInt64) : 0 ≤ magnitudeOf word := by
  unfold magnitudeOf
  split
  · exact mul_nonneg (Nat.cast_nonneg _) (zpow_nonneg zero_le_two _)
  · exact mul_nonneg (add_nonneg (by norm_num) (Nat.cast_nonneg _)) (zpow_nonneg zero_le_two _)

/-- A finite word is decoded to a number of its sign and its value. -/
theorem ofBits_of_isFinite {word : UInt64} (h : IsFinite word) :
    ∃ m, ofBits word = .finite (signBit word) m ∧ m.value = magnitudeOf word := by
  have hexponent : word.toNat / 0x10000000000000 % 0x800 = exponentField word := rfl
  have hfraction : word.toNat % 0x10000000000000 = fractionField word := rfl
  have hsign : decide (0x8000000000000000 ≤ word.toNat) = signBit word := rfl
  unfold ofBits magnitudeOf
  simp only [hexponent, hfraction, hsign]
  rw [if_neg h]
  by_cases hzero : exponentField word = 0
  · rw [dif_pos hzero, if_pos hzero]
    refine ⟨_, rfl, ?_⟩
    rw [Magnitude.value_eq]
    norm_num
  · rw [dif_neg hzero, if_neg hzero]
    refine ⟨_, rfl, ?_⟩
    have hlt : exponentField word < 2048 := Nat.mod_lt _ (by decide)
    have hshift : min (exponentField word - 1) maxShift = exponentField word - 1 := by
      simp only [IsFinite, maxShift] at h ⊢
      omega
    rw [Magnitude.value_eq]
    simp only [hshift]
    have hcast : ((exponentField word - 1 : ℕ) : ℤ) - 1074 = (exponentField word : ℤ) - 1075 := by
      omega
    rw [hcast]
    norm_num

/-! ## Rounding -/

/-- Rounding a quotient, ties up, is rounding its exact value. -/
theorem divNearest_up_eq_round {num den : Nat} (hden : 0 < den) :
    (divNearest .up num den : ℤ) = round ((num : ℚ) / den) := by
  have hbounds : 2 * (divNearest .up num den * den) ≤ 2 * num + den ∧
      2 * num < 2 * (divNearest .up num den * den) + den := by
    have hdiv := Nat.div_add_mod num den
    have hlt := Nat.mod_lt num hden
    have hcomm : num / den * den = den * (num / den) := Nat.mul_comm _ _
    have hsucc : (num / den + 1) * den = den * (num / den) + den := by
      rw [Nat.add_mul, Nat.one_mul, hcomm]
    unfold divNearest
    dsimp only
    split
    · omega
    · split <;> omega
  obtain ⟨hlow, hhigh⟩ := hbounds
  have hpos : (0 : ℚ) < den := by exact_mod_cast hden
  have hlow' : 2 * ((divNearest .up num den : ℚ) * den) ≤ 2 * num + den := by exact_mod_cast hlow
  have hhigh' : 2 * (num : ℚ) < 2 * ((divNearest .up num den : ℚ) * den) + den := by
    exact_mod_cast hhigh
  symm
  rw [round_eq_iff, Set.mem_Ico, le_div_iff₀ hpos, div_lt_iff₀ hpos, Int.cast_natCast]
  constructor <;> linarith

theorem cast_tenTo (exponent : Nat) : (tenTo exponent : ℚ) = 10 ^ exponent := by
  have hpow : tenTo exponent = 10 ^ exponent := rfl
  rw [hpow, Nat.cast_pow]
  rfl

theorem unitsPerOne_pos : 0 < unitsPerOne := by
  rw [unitsPerOne_eq]
  exact Nat.two_pow_pos _

/-- The millionths are the exact value, rounded. -/
theorem inPlaces_eq_round (m : Magnitude) :
    (m.inPlaces : ℤ) = round (m.value * 10 ^ places) := by
  rw [Magnitude.inPlaces, divNearest_up_eq_round unitsPerOne_pos, Magnitude.value, Nat.cast_mul,
    cast_tenTo, div_mul_eq_mul_div]

/-! ## Two ways to the text -/

/-- Of the numbers with six places that are nearest to `x`, the greatest has `n` millionths. -/
structure GreatestNearest (x : ℚ) (n : ℤ) : Prop where
  nearest : ∀ k : ℤ, |(n : ℚ) / 10 ^ places - x| ≤ |(k : ℚ) / 10 ^ places - x|
  greatest : ∀ k : ℤ, |(k : ℚ) / 10 ^ places - x| = |(n : ℚ) / 10 ^ places - x| → k ≤ n

theorem scale_pos : (0 : ℚ) < 10 ^ places := by positivity

/-- A distance in millionths. -/
theorem distance_eq (x : ℚ) (k : ℤ) :
    |(k : ℚ) / 10 ^ places - x| = |x * 10 ^ places - k| / 10 ^ places := by
  have hdiff : (k : ℚ) / 10 ^ places - x = -((x * 10 ^ places - k) / 10 ^ places) := by
    rw [sub_div, mul_div_cancel_right₀ _ scale_pos.ne', neg_sub]
  rw [hdiff, abs_neg, abs_div, abs_of_pos scale_pos]

theorem greatestNearest_round (x : ℚ) : GreatestNearest x (round (x * 10 ^ places)) where
  nearest k := by
    rw [distance_eq, distance_eq]
    exact div_le_div_of_nonneg_right (round_le _ k) scale_pos.le
  greatest k hk := by
    rw [distance_eq, distance_eq, div_left_inj' scale_pos.ne'] at hk
    -- Anything greater is more than half a millionth away.
    by_contra hlt
    have hsucc : round (x * 10 ^ places) + 1 ≤ k := by omega
    have hsucc' : (round (x * 10 ^ places) : ℚ) + 1 ≤ k := by exact_mod_cast hsucc
    have hround := round_eq_iff.mp (rfl : round (x * 10 ^ places) = _)
    have hnear := abs_sub_round (x * 10 ^ places)
    have hhigh := hround.2
    have hneg : x * 10 ^ places - k < 0 := by linarith
    rw [← hk, abs_of_neg hneg] at hnear
    linarith

theorem greatestNearest_iff {x : ℚ} {n : ℤ} :
    GreatestNearest x n ↔ n = round (x * 10 ^ places) := by
  constructor
  · intro h
    have hround := greatestNearest_round x
    have hdist := le_antisymm (h.nearest _) (hround.nearest n)
    exact le_antisymm (hround.greatest n hdist) (h.greatest _ hdist.symm)
  · rintro rfl
    exact greatestNearest_round x

/-- The digits of `n` with a point before the last six; zeros stand in front if there are not
enough. -/
def pointed (n : Nat) : String :=
  let cs := Nat.toDigits 10 n
  let filled := List.replicate (places + 1 - cs.length) '0' ++ cs
  let whole := filled.length - places
  String.ofList (filled.take whole ++ '.' :: filled.drop whole)

theorem fixedText_eq_pointed (n : Nat) : fixedText places n = pointed n := by
  have hlength : (Nat.toDigits 10 (n / tenTo places) ++ lastDigits places n).length - places =
      (Nat.toDigits 10 (n / tenTo places)).length := by
    rw [List.length_append, length_lastDigits, Nat.add_sub_cancel]
  have hpoint : ".".toList = ['.'] := rfl
  rw [pointed, ← toDigits_append_lastDigits, hlength, List.take_left, List.drop_left,
    ← String.toList_inj, fixedText, Nat.repr_eq_ofList_toDigits]
  simp only [String.toList_append, String.toList_ofList, hpoint, List.append_assoc]
  rfl

/-- From `10 ^ 21` on a number is whole. -/
theorem toUnits_of_large {m : Magnitude} (h : 10 ^ 21 ≤ m.value) :
    ∃ n, 0 < n ∧ m.toUnits = unitsPerOne * n := by
  obtain ⟨hsignificand, -, -⟩ := m.canonical
  have hunits : 10 ^ 21 * unitsPerOne ≤ m.significand * 2 ^ m.shift := by
    rw [← toUnits_eq]
    rw [Magnitude.value, le_div_iff₀ (by exact_mod_cast unitsPerOne_pos)] at h
    exact_mod_cast h
  have hshift : unitExponent ≤ m.shift := by
    by_contra hlt
    have hpow : 2 ^ m.shift ≤ unitsPerOne := by
      rw [unitsPerOne_eq]
      exact Nat.pow_le_pow_right (by decide) (by omega)
    have hsmall : m.significand * 2 ^ m.shift ≤ 0x20000000000000 * unitsPerOne :=
      Nat.mul_le_mul hsignificand.le hpow
    have hlarge : 0x20000000000000 * unitsPerOne < 10 ^ 21 * unitsPerOne :=
      Nat.mul_lt_mul_of_pos_right (by norm_num) unitsPerOne_pos
    omega
  obtain ⟨k, hk⟩ := Nat.exists_eq_add_of_le hshift
  have hpow : 2 ^ m.shift = unitsPerOne * 2 ^ k := by
    rw [hk, Nat.pow_add, unitsPerOne_eq]
  refine ⟨m.significand * 2 ^ k, ?_, ?_⟩
  · refine Nat.pos_of_ne_zero fun hzero => ?_
    rw [hpow, Nat.mul_left_comm, hzero, Nat.mul_zero] at hunits
    have := Nat.mul_pos (show 0 < 10 ^ 21 by norm_num) unitsPerOne_pos
    omega
  · rw [toUnits_eq, hpow, Nat.mul_left_comm]

theorem lastDigits_mul_tenTo (count n : Nat) :
    lastDigits count (n * tenTo count) = List.replicate count '0' := by
  induction count with
  | zero => rfl
  | succ count ih =>
    have hten : n * tenTo (count + 1) = n * tenTo count * 10 := by
      rw [Nat.mul_assoc]
      rfl
    rw [lastDigits, hten, Nat.mul_div_cancel _ (by decide), Nat.mul_mod_left, ih,
      List.replicate_succ']
    rfl

/-- From `10 ^ 21` on the text of a number is that of an integer, with six zeros behind the
point. -/
theorem fixed_of_large (negative : Bool) {m : Magnitude} (h : 10 ^ 21 ≤ m.value) :
    ∃ n : ℤ, (n : ℚ) = signed negative m.value ∧
      (finite negative m).fixed = Text.integer n ++ ".000000" := by
  obtain ⟨n, hpos, hunits⟩ := toUnits_of_large h
  have hvalue : m.value = n := by
    have hone : (unitsPerOne : ℚ) ≠ 0 := by exact_mod_cast unitsPerOne_pos.ne'
    rw [Magnitude.value, hunits, Nat.cast_mul, mul_div_cancel_left₀ _ hone]
  refine ⟨if negative then -(n : ℤ) else n, ?_, ?_⟩
  · rw [hvalue, signed]
    split <;> simp
  · have hplaces : m.inPlaces = n * tenTo places := by
      rw [Magnitude.inPlaces, hunits, Nat.mul_assoc,
        divNearest_of_dvd _ unitsPerOne_pos (Nat.dvd_mul_right _ _),
        Nat.mul_div_cancel_left _ unitsPerOne_pos]
    have hten : 0 < tenTo places := by decide
    have hzeros : "." ++ String.ofList (List.replicate places '0') = ".000000" := by decide
    have hsign : signText negative ++ n.repr = Text.integer (if negative then -(n : ℤ) else n) := by
      cases negative with
      | false =>
        have hnonneg : ¬ (n : ℤ) < 0 := by omega
        simp [signText, Text.integer, hnonneg]
      | true =>
        have hneg : -(n : ℤ) < 0 := by omega
        simp [signText, Text.integer, hpos]
    rw [fixed, hplaces, fixedText, lastDigits_mul_tenTo, Nat.mul_div_cancel _ hten,
      String.append_assoc, hzeros, ← String.append_assoc, hsign]

/-! ## What texts denote -/

/-- The text of a finite word is in place notation. Its sign is the sign bit, whatever its digits
are, and its digits count the nearest millionths. -/
structure ShownBy (word : UInt64) (d : Decimal) : Prop where
  text : (ofBits word).fixed = d.text
  normal : d.Normal
  sign : d.negative = signBit word
  digits : (d.digits : ℤ) = round (magnitudeOf word * 10 ^ places)

/-- A number to the nearest millionth. -/
def toPlaces (x : ℚ) : ℚ := round (x * 10 ^ places) / 10 ^ places

theorem toPlaces_zero : toPlaces 0 = 0 := by
  rw [toPlaces, zero_mul, round_zero, Int.cast_zero, zero_div]

theorem toPlaces_mono : Monotone toPlaces := by
  intro x y h
  have hscaled : x * 10 ^ places ≤ y * 10 ^ places := mul_le_mul_of_nonneg_right h scale_pos.le
  have hround : round (x * 10 ^ places) ≤ round (y * 10 ^ places) := by
    rw [round_eq, round_eq]
    exact Int.floor_mono (by linarith)
  exact div_le_div_of_nonneg_right (by exact_mod_cast hround) scale_pos.le

theorem abs_toPlaces_sub (x : ℚ) : |toPlaces x - x| ≤ 1 / 2 / 10 ^ places := by
  rw [toPlaces, distance_eq]
  exact div_le_div_of_nonneg_right (abs_sub_round _) scale_pos.le

theorem abs_signed_sub (negative : Bool) (x y : ℚ) :
    |signed negative x - signed negative y| = |x - y| := by
  cases negative with
  | false => rfl
  | true =>
    have hneg : signed true x - signed true y = -(x - y) := by
      simp only [signed, if_true]
      ring
    rw [hneg, abs_neg]

/-- A monotone function of absolute values keeps the order of signed numbers. -/
theorem signed_mono {f : ℚ → ℚ} (hmono : Monotone f) (hzero : f 0 = 0) {s t : Bool} {x y : ℚ}
    (hx : 0 ≤ x) (hy : 0 ≤ y) (h : signed s x ≤ signed t y) : signed s (f x) ≤ signed t (f y) := by
  have hfx : 0 ≤ f x := hzero ▸ hmono hx
  have hfy : 0 ≤ f y := hzero ▸ hmono hy
  cases s <;> cases t <;> simp only [signed, if_true, Bool.false_eq_true, if_false] at h ⊢
  case false.false => exact hmono h
  case false.true =>
    have hx0 : x = 0 := by linarith
    have hy0 : y = 0 := by linarith
    rw [hx0, hy0, hzero, neg_zero]
  case true.false => linarith
  case true.true =>
    have hxy : f y ≤ f x := hmono (by linarith)
    linarith

theorem exists_shownBy {word : UInt64} (h : IsFinite word) : ∃ d, ShownBy word d := by
  obtain ⟨m, hword, hvalue⟩ := ofBits_of_isFinite h
  refine ⟨.ofPlaces (signBit word) m.inPlaces, ?_, Decimal.normal_ofPlaces, rfl, ?_⟩
  · rw [hword, fixed, Decimal.text_ofPlaces]
  · rw [Decimal.digits_ofPlaces, inPlaces_eq_round, hvalue]

namespace ShownBy

variable {word : UInt64} {d : Decimal}

theorem value (h : ShownBy word d) :
    d.value = signed (signBit word) (toPlaces (magnitudeOf word)) := by
  rw [Decimal.value, h.sign, h.normal.length_fraction, toPlaces, ← h.digits, Int.cast_natCast]

theorem near (h : ShownBy word d) : |d.value - valueOf word| ≤ 1 / 2 / 10 ^ places := by
  rw [h.value, valueOf, abs_signed_sub]
  exact abs_toPlaces_sub _

theorem mono (h : ShownBy word d) {word' : UInt64} {d' : Decimal} (h' : ShownBy word' d')
    (hle : valueOf word ≤ valueOf word') : d.value ≤ d'.value := by
  rw [h.value, h'.value]
  exact signed_mono toPlaces_mono toPlaces_zero (magnitudeOf_nonneg word)
    (magnitudeOf_nonneg word') hle

end ShownBy

theorem fixed_of_small {word : UInt64} (h : IsFinite word) {n : ℕ}
    (hn : GreatestNearest (magnitudeOf word) n) :
    (ofBits word).fixed = signText (signBit word) ++ pointed n := by
  obtain ⟨m, hword, hvalue⟩ := ofBits_of_isFinite h
  have hplaces : m.inPlaces = n := by
    have hround := greatestNearest_iff.mp hn
    rw [← hvalue, ← inPlaces_eq_round] at hround
    exact_mod_cast hround.symm
  rw [hword, fixed, hplaces, fixedText_eq_pointed]

/-- The text of a finite word has a minus sign if and only if the sign bit is set, and then the
nearest number of millionths in place notation, a tie going away from zero. What it denotes is at
most half a millionth away from the exact value of the word, and greater words denote greater
numbers or the same. Below `10 ^ 21` it is the text of the greatest of the nearest numbers of
millionths, with a point before the last six digits, and from there on that of an integer. -/
theorem fixed_exact {word : UInt64} (h : IsFinite word) :
    ∃ d : Decimal, ShownBy word d ∧
      ((ofBits word).fixed.toList.head? = some '-' ↔ signBit word = true) ∧
      |d.value - valueOf word| ≤ 1 / 2 / 10 ^ places ∧
      (∀ {word' : UInt64} {d' : Decimal}, IsFinite word' → (ofBits word').fixed = d'.text →
        d'.Normal → valueOf word ≤ valueOf word' → d.value ≤ d'.value) ∧
      (magnitudeOf word < 10 ^ 21 → ∃ n : ℕ, GreatestNearest (magnitudeOf word) n ∧
        (ofBits word).fixed = signText (signBit word) ++ pointed n) ∧
      (10 ^ 21 ≤ magnitudeOf word → ∃ n : ℤ, (n : ℚ) = valueOf word ∧
        (ofBits word).fixed = Text.integer n ++ ".000000") := by
  obtain ⟨d, hd⟩ := exists_shownBy h
  refine ⟨d, hd, ?_, hd.near, ?_, ?_, ?_⟩
  · rw [hd.text, hd.normal.head_text, hd.sign]
  · intro word' d' h' htext hnormal hle
    obtain ⟨shown, hshown⟩ := exists_shownBy h'
    have hsame : shown = d' := Decimal.text_inj hshown.normal hnormal (hshown.text ▸ htext)
    exact hsame ▸ hd.mono hshown hle
  · intro _
    have hnearest : GreatestNearest (magnitudeOf word) d.digits := by
      rw [greatestNearest_iff]
      exact hd.digits
    exact ⟨d.digits, hnearest, fixed_of_small h hnearest⟩
  · intro hlarge
    obtain ⟨m, hword, hvalue⟩ := ofBits_of_isFinite h
    rw [← hvalue] at hlarge
    obtain ⟨n, hn, htext⟩ := fixed_of_large (signBit word) hlarge
    exact ⟨n, by rw [hn, hvalue, valueOf], hword ▸ htext⟩

/-- The word of `-1 / 128`, halfway between two numbers of millionths. -/
def negativeTie : UInt64 := 0xbf80000000000000

theorem fixed_negativeTie :
    IsFinite negativeTie ∧ valueOf negativeTie = -1 / 128 ∧
      ∃ d : Decimal, ShownBy negativeTie d ∧ d.text = "-0.007813" ∧ d.digits = 7813 ∧
        |d.value - valueOf negativeTie| ≤ 1 / 2 / 10 ^ places ∧
        ∃ n : ℕ, GreatestNearest (magnitudeOf negativeTie) n ∧
          "-0.007813" = signText true ++ pointed n := by
  have hfinite : IsFinite negativeTie := by decide
  have htext : (ofBits negativeTie).fixed = "-0.007813" := by decide +kernel
  have hexponent : exponentField negativeTie = 1016 := by decide
  have hfraction : fractionField negativeTie = 0 := by decide
  have hsign : signBit negativeTie = true := by decide
  have hmagnitude : magnitudeOf negativeTie = 1 / 128 := by
    rw [magnitudeOf, hexponent, hfraction]
    norm_num
  obtain ⟨d, hd, -, hnear, -, hsmall, -⟩ := fixed_exact hfinite
  have hnormal : (⟨true, "0".toList, "007813".toList⟩ : Decimal).Normal :=
    ⟨List.all_eq_true.mp (by decide), by decide, by decide, by decide⟩
  have hdecimal : d = ⟨true, "0".toList, "007813".toList⟩ :=
    Decimal.text_inj hd.normal hnormal (hd.text.symm.trans (htext.trans (by decide)))
  obtain ⟨n, hn, hpointed⟩ := hsmall (by rw [hmagnitude]; norm_num)
  refine ⟨hfinite, ?_, d, hd, hd.text.symm.trans htext, ?_, hnear, n, hn, ?_⟩
  · rw [valueOf, hsign, hmagnitude, signed]
    norm_num
  · rw [hdecimal]
    decide
  · rw [← htext, hpointed, hsign]

end BlockIr.Binary64
